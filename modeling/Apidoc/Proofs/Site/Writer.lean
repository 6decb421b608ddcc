import Apidoc.Proofs.Files.Action
import Apidoc.Site.Writer

/-!
# `Apidoc.Proofs.Site.Writer`: the pages that a written site has

Writing a site ends with the pages of the types, one record after the other. A page that
was written stays a file whatever is written after it. So if writing the site succeeds,
every record of the graph has its page (`isFile_page_of_writeSite`).
-/

set_option autoImplicit false

namespace Apidoc.Site

open Apidoc.Files (Action Path Tree exec_change_inv)
open Apidoc.Graph (Record Symbols)
open Apidoc.Proofs (exec exec_bind_ok exec_bind_inv exec_get exec_pure exec_mapM_inv)

/-- The path of the page that a site has for a qualified name. -/
def pageOf (output : Path) (name : String) : Path :=
  (typesDirectory output).join (.ofString (name ++ ".html"))

variable {output : Path} {press : Tree → Press} {t t' : Tree}

/-- Writing the page of a type answers its path and leaves the text of the page there. -/
theorem writeTypePage_inv {r : Record} {page : Path}
    (h : exec (writeTypePage output press r) t = (.ok page, t')) :
    page = pageOf output r.qualifiedName ∧
      ∃ text, (press t).typePage r = .ok text ∧ t.write page (Text.encode text) = .ok t' := by
  unfold writeTypePage at h
  rw [exec_bind_ok (exec_get t)] at h
  obtain ⟨text, t₁, htext, h⟩ := exec_bind_inv h
  obtain ⟨u, t₂, hwrite, h⟩ := exec_bind_inv h
  rw [exec_pure] at h
  cases h
  -- Making the text of a page does not touch the files.
  have hsame : t₁ = t := (congrArg Prod.snd htext).symm
  subst hsame
  exact ⟨rfl, text, congrArg Prod.fst htext, exec_change_inv hwrite⟩

/-- Writing the pages of types answers their paths, and all of them are files then. Other files stay
files. -/
theorem mapM_writeTypePage_inv {rs : List Record} {pages : List Path}
    (h : exec (rs.mapM (writeTypePage output press)) t = (.ok pages, t')) :
    pages = rs.map (fun r => pageOf output r.qualifiedName) ∧
    (∀ page ∈ pages, t'.isFile page = .ok true) ∧
    ∀ path, t.isFile path = .ok true → t'.isFile path = .ok true := by
  -- A page that is a file stays one through all later writes.
  obtain ⟨hpages, hfiles, hkept⟩ := exec_mapM_inv (fun page s => Tree.isFile s page = .ok true)
    (fun r => pageOf output r.qualifiedName) (fun r s page s' hpage => by
      obtain ⟨hanswer, text, -, hwrite⟩ := writeTypePage_inv hpage
      exact ⟨hanswer, Tree.isFile_write hwrite,
        fun q hq => Tree.isFile_write_of_isFile hwrite hq⟩) rs t pages t' h
  exact ⟨hpages, hfiles, hkept⟩

/-- The steps of writing a site. To remove an earlier site is one step, whether or not there is one. -/
theorem writeSite_steps (output : Path) (g : Symbols) (site : Info) (press : Tree → Press) :
    writeSite output g site press = (do
      Action.makeDirectories output
      (do if (← Action.ask fun t => t.find? (typesDirectory output)).isSome then
            Action.removeDirectory (typesDirectory output))
      Action.makeDirectories (typesDirectory output)
      writeAssets output
      Action.write (output.child "root.js") g.script
      Action.write (output.child "index.html") (indexPage g site)
      g.types.mapM (writeTypePage output press)) := by
  simp only [writeSite, bind_assoc]
  refine congrArg _ (funext fun _ => congrArg _ (funext fun old => ?_))
  cases old.isSome <;> simp

/-- Writing a site that succeeds ends with writing the pages of all types. The script of the graph is
there by then. -/
theorem writeSite_inv {g : Symbols} {site : Info} {pages : List Path}
    (h : exec (writeSite output g site press) t = (.ok pages, t')) :
    ∃ s, s.isFile (output.child "root.js") = .ok true ∧
      exec (g.types.mapM (writeTypePage output press)) s = (.ok pages, t') := by
  rw [writeSite_steps] at h
  obtain ⟨_, s₁, -, h⟩ := exec_bind_inv h
  obtain ⟨_, s₂, -, h⟩ := exec_bind_inv h
  obtain ⟨_, s₃, -, h⟩ := exec_bind_inv h
  obtain ⟨_, s₄, -, h⟩ := exec_bind_inv h
  obtain ⟨_, s₅, hscript, h⟩ := exec_bind_inv h
  obtain ⟨_, s₆, hindex, hpages⟩ := exec_bind_inv h
  -- The index page is written behind the script, and leaves it a file.
  have hfile := Tree.isFile_write (exec_change_inv hscript)
  exact ⟨s₆, Tree.isFile_write_of_isFile (exec_change_inv hindex) hfile, hpages⟩

/-- In a site that was written, every record of the graph has its page. -/
theorem isFile_page_of_writeSite {g : Symbols} {site : Info} {pages : List Path}
    (h : (writeSite output g site press).exec t = (.ok pages, t')) {r : Record}
    (hr : r ∈ g.types) :
    pageOf output r.qualifiedName ∈ pages ∧
    t'.isFile (pageOf output r.qualifiedName) = .ok true := by
  obtain ⟨s, -, hpages⟩ := writeSite_inv h
  obtain ⟨hanswer, hfiles, -⟩ := mapM_writeTypePage_inv hpages
  have hmem : pageOf output r.qualifiedName ∈ pages := by
    rw [hanswer]
    exact List.mem_map.mpr ⟨r, hr, rfl⟩
  exact ⟨hmem, hfiles _ hmem⟩

/-- In a site that was written, the script of the graph is a file. -/
theorem isFile_script_of_writeSite {g : Symbols} {site : Info} {pages : List Path}
    (h : (writeSite output g site press).exec t = (.ok pages, t')) :
    t'.isFile (output.child "root.js") = .ok true := by
  obtain ⟨s, hscript, hpages⟩ := writeSite_inv h
  exact (mapM_writeTypePage_inv hpages).2.2 _ hscript

end Apidoc.Site
