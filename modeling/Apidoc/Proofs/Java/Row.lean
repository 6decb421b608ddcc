import Apidoc.Proofs.Java.Head

/-!
# `Apidoc.Proofs.Java.Row`: declarations one after another

Spans stand in a row between two offsets if each of them covers something and stops before the next
one starts (`Row`). The pieces of a source stand in a row, and so do the items that are read from
it: the comments and declarations of a body follow one another, and the members of a type stand in a
row of their own that lies strictly inside of the type (`Reader.itemsInRow_items`). This holds of
every sequence of bytes, whether or not it is a unit of the language, because a declaration is never
read from more than the trees that are taken for it.
-/

set_option autoImplicit false

namespace Apidoc.Java

/-! ### Spans in a row -/

/-- The spans follow one another between two offsets, and each of them covers something. -/
def Row (lo hi : Nat) : List Span → Prop
  | [] => lo ≤ hi
  | s :: rest => lo ≤ s.start ∧ s.start < s.stop ∧ Row s.stop hi rest

namespace Row

variable {lo hi mid : Nat} {s : Span} {ss rs : List Span}

theorem le (h : Row lo hi ss) : lo ≤ hi := by
  induction ss generalizing lo with
  | nil => exact h
  | cons s rest ih =>
    obtain ⟨hstart, hpos, hrest⟩ := h
    have hle := ih hrest
    omega

/-- A row stays one between offsets that are farther apart. -/
theorem mono (h : Row lo hi ss) {lo' hi' : Nat} (hlo : lo' ≤ lo) (hhi : hi ≤ hi') :
    Row lo' hi' ss := by
  induction ss generalizing lo lo' with
  | nil => exact hlo.trans (h.le.trans hhi)
  | cons s rest ih => exact ⟨hlo.trans h.1, h.2.1, ih h.2.2 (Nat.le_refl _)⟩

/-- Of two parts of a row, one ends where the other one begins, or before. -/
theorem append_iff : Row lo hi (ss ++ rs) ↔ ∃ mid, Row lo mid ss ∧ Row mid hi rs := by
  induction ss generalizing lo with
  | nil =>
    constructor
    · exact fun h => ⟨lo, Nat.le_refl lo, h⟩
    · rintro ⟨mid, hmid, h⟩
      exact mono h hmid (Nat.le_refl hi)
  | cons s rest ih =>
    constructor
    · rintro ⟨hstart, hpos, h⟩
      obtain ⟨mid, hrest, hrs⟩ := ih.mp h
      exact ⟨mid, ⟨hstart, hpos, hrest⟩, hrs⟩
    · rintro ⟨mid, ⟨hstart, hpos, hrest⟩, hrs⟩
      exact ⟨hstart, hpos, ih.mpr ⟨mid, hrest, hrs⟩⟩

theorem append (h : Row lo mid ss) (h' : Row mid hi rs) : Row lo hi (ss ++ rs) :=
  append_iff.mpr ⟨mid, h, h'⟩

/-- A row can be cut in front of each of its spans and behind it. -/
theorem append_cons_iff :
    Row lo hi (ss ++ s :: rs) ↔ Row lo s.start ss ∧ s.start < s.stop ∧ Row s.stop hi rs := by
  rw [append_iff]
  constructor
  · rintro ⟨mid, hss, hstart, hpos, hrs⟩
    exact ⟨hss.mono (Nat.le_refl lo) hstart, hpos, hrs⟩
  · rintro ⟨hss, hpos, hrs⟩
    exact ⟨s.start, hss, Nat.le_refl _, hpos, hrs⟩

/-- Spans that are left out of a row leave a row. -/
theorem sublist (h : Row lo hi ss) (hsub : rs.Sublist ss) : Row lo hi rs := by
  induction hsub generalizing lo with
  | slnil => exact h
  | cons s hsub ih => exact ih (mono h.2.2 (h.1.trans h.2.1.le) (Nat.le_refl hi))
  | cons_cons s hsub ih => exact ⟨h.1, h.2.1, ih h.2.2⟩

/-- A span of a row lies between its ends. -/
theorem bounds (h : Row lo hi ss) (hs : s ∈ ss) :
    lo ≤ s.start ∧ s.start < s.stop ∧ s.stop ≤ hi := by
  obtain ⟨before, after, rfl⟩ := List.append_of_mem hs
  obtain ⟨hbefore, hpos, hafter⟩ := append_cons_iff.mp h
  exact ⟨hbefore.le, hpos, hafter.le⟩

/-- The spans of a row do not overlap. -/
theorem pairwise (h : Row lo hi ss) : ss.Pairwise fun a b => a.stop ≤ b.start := by
  induction ss generalizing lo with
  | nil => exact .nil
  | cons s rest ih => exact .cons (fun r hr => (bounds h.2.2 hr).1) (ih h.2.2)

end Row

/-! ### Pieces in a row -/

/-- The bytes of a piece. -/
def Piece.span (p : Piece) : Span := ⟨p.start, p.stop⟩

theorem row_of_pairwise {ps : List Piece} {lo hi : Nat} (hle : lo ≤ hi)
    (hbounds : ∀ p ∈ ps, lo ≤ p.start ∧ p.start < p.stop ∧ p.stop ≤ hi)
    (hpairwise : ps.Pairwise fun p q => p.stop ≤ q.start) : Row lo hi (ps.map Piece.span) := by
  induction ps generalizing lo with
  | nil => exact hle
  | cons p ps ih =>
    obtain ⟨hlater, hpairwise⟩ := List.pairwise_cons.mp hpairwise
    obtain ⟨hstart, hpos, hstop⟩ := hbounds p List.mem_cons_self
    refine ⟨hstart, hpos, ih hstop (fun q hq => ?_) hpairwise⟩
    exact ⟨hlater q hq, (hbounds q (List.mem_cons_of_mem p hq)).2⟩

/-- The pieces of a source stand in a row. -/
theorem row_pieces (source : Text.Bytes) :
    Row 0 source.length ((Lexer.pieces source).map Piece.span) :=
  row_of_pairwise (Nat.zero_le _)
    (fun _ hp => ⟨Nat.zero_le _, Lexer.bounds_of_mem_pieces hp⟩) (Lexer.pairwise_pieces source)

namespace Tree

variable {lo hi : Nat} {t u : Tree} {ts us : List Tree}

theorem piecesAll_append (ts us : List Tree) :
    piecesAll (ts ++ us) = piecesAll ts ++ piecesAll us := by
  induction ts with
  | nil => rfl
  | cons t rest ih => rw [List.cons_append, piecesAll, piecesAll, ih, List.append_assoc]

/-- Trivia and tokens take turns in the pieces of trees. -/
theorem piecesAll_eq_flatMap (ts : List Tree) :
    piecesAll ts = (tokensAll ts).flatMap fun t => t.before ++ [t.piece] := by
  induction ts using piecesAll.induct
    (motive_1 := fun t => t.pieces = t.tokens.flatMap fun t => t.before ++ [t.piece]) with
  | case1 t => rw [pieces, tokens, List.flatMap_singleton]
  | case2 opening items closing ih =>
    rw [pieces, tokens, ih]
    simp
  | case3 => rfl
  | case4 t rest iht ih =>
    rw [piecesAll, tokensAll, iht, ih, List.flatMap_append]

/-- Tokens keep the pieces in front of them. Only trivia behind the last token are lost. -/
theorem flatMap_ofPieces_prefix (before ps : List Piece) :
    ((Token.ofPieces before ps).flatMap fun t => t.before ++ [t.piece]) <+: before ++ ps := by
  induction ps generalizing before with
  | nil => exact List.nil_prefix
  | cons p rest ih =>
    have hpieces : before ++ p :: rest = before ++ [p] ++ rest := List.append_cons before p rest
    rw [hpieces, Token.ofPieces]
    split
    · exact ih (before ++ [p])
    · rw [List.flatMap_cons]
      exact (List.prefix_append_right_inj _).mpr (ih [])

/-- The pieces of the trees of a source are those of the source. -/
theorem piecesAll_ofSource (source : Text.Bytes) :
    piecesAll (ofSource source) <+: Lexer.pieces source := by
  rw [piecesAll_eq_flatMap, ofSource, tokensAll_nest]
  exact flatMap_ofPieces_prefix [] _

/-- The pieces of the trees stand in a row between two offsets. -/
def InRow (lo hi : Nat) (ts : List Tree) : Prop := Row lo hi ((piecesAll ts).map Piece.span)

theorem inRow_ofSource (source : Text.Bytes) : InRow 0 source.length (ofSource source) :=
  (row_pieces source).sublist ((piecesAll_ofSource source).sublist.map Piece.span)

/-- The brackets of a group stand around what is between them. -/
theorem inRow_group {opening closing : Token} {items : List Tree}
    (h : InRow lo hi (.group opening items closing :: ts)) :
    Row lo opening.piece.start (opening.before.map Piece.span) ∧
      opening.piece.start < opening.piece.stop ∧
      InRow opening.piece.stop closing.piece.start items ∧
      closing.piece.start < closing.piece.stop ∧ InRow closing.piece.stop hi ts := by
  have hpieces : piecesAll (.group opening items closing :: ts) =
      opening.before ++ opening.piece ::
        ((piecesAll items ++ closing.before) ++ closing.piece :: piecesAll ts) := by
    simp [piecesAll, pieces]
  rw [InRow, hpieces, List.map_append, List.map_cons, List.map_append, List.map_cons] at h
  obtain ⟨hbefore, hopening, hrest⟩ := Row.append_cons_iff.mp h
  obtain ⟨hinside, hclosing, hrest⟩ := Row.append_cons_iff.mp hrest
  refine ⟨hbefore, hopening, ?_, hclosing, hrest⟩
  exact hinside.sublist ((List.sublist_append_left _ _).map Piece.span)

/-- Trees in a row can be cut behind the first one. In front of it are its comments. -/
theorem InRow.cons (h : InRow lo hi (t :: ts)) :
    Row lo t.start (t.comments.map Piece.span) ∧ t.start < t.stop ∧ InRow t.stop hi ts := by
  have hcomments : ∀ first : Token, Row lo first.piece.start (first.before.map Piece.span) →
      Row lo first.piece.start (first.comments.map Piece.span) := fun first hbefore =>
    hbefore.sublist (List.filter_sublist.map Piece.span)
  cases t with
  | token t =>
    rw [InRow, piecesAll, pieces, List.append_assoc, List.singleton_append, List.map_append,
      List.map_cons] at h
    obtain ⟨hbefore, hpos, hrest⟩ := Row.append_cons_iff.mp h
    exact ⟨hcomments t hbefore, hpos, hrest⟩
  | group opening items closing =>
    obtain ⟨hbefore, hopening, hinside, hclosing, hrest⟩ := inRow_group h
    refine ⟨hcomments opening hbefore, ?_, hrest⟩
    show opening.piece.start < closing.piece.stop
    have hle : opening.piece.stop ≤ closing.piece.start := Row.le hinside
    omega

/-- What is between two brackets stands in a row that is strictly inside. -/
theorem InRow.items {bracket : String} (h : InRow lo hi (t :: ts))
    (hgroup : t.isGroup bracket = true) :
    ∃ inner outer, t.start < inner ∧ InRow inner outer t.items ∧ outer < t.stop := by
  cases t with
  | token t => cases hgroup
  | group opening items closing =>
    obtain ⟨-, hopening, hinside, hclosing, -⟩ := inRow_group h
    exact ⟨opening.piece.stop, closing.piece.start, hopening, hinside, hclosing⟩

theorem InRow.le (h : InRow lo hi ts) : lo ≤ hi := Row.le h

theorem InRow.append_iff :
    InRow lo hi (ts ++ us) ↔ ∃ mid, InRow lo mid ts ∧ InRow mid hi us := by
  rw [InRow, piecesAll_append, List.map_append]
  exact Row.append_iff

/-- Trees that are passed over leave a row. -/
theorem InRow.drop (h : InRow lo hi ts) (n : Nat) : InRow lo hi (ts.drop n) := by
  rw [← List.take_append_drop n ts] at h
  obtain ⟨mid, htake, hdrop⟩ := InRow.append_iff.mp h
  exact Row.mono hdrop htake.le (Nat.le_refl hi)

end Tree

/-! ### Items in a row -/

namespace Reader

open Apidoc.Java.Item Apidoc.Java.Measure
open Apidoc.Java.Tree (InRow)

variable {lo hi mid : Nat} {t u : Tree} {ts rest : List Tree} {item : Item} {items : List Item}

/-- The first trees of a row cover a span, and the others stand behind it. -/
theorem inRow_span (h : InRow lo hi (t :: rest)) (n : Nat) :
    (span ((t :: rest).take (n + 1))).start = t.start ∧
      t.start < (span ((t :: rest).take (n + 1))).stop ∧
      InRow (span ((t :: rest).take (n + 1))).stop hi (rest.drop n) := by
  refine ⟨rfl, ?_⟩
  induction n generalizing t rest lo with
  | zero => exact h.cons.2
  | succ n ih =>
    obtain ⟨-, hpos, hrest⟩ := h.cons
    cases rest with
    | nil => exact ⟨hpos, hrest⟩
    | cons u rest =>
      -- The end of the span is that of its last tree, and that is one behind the first.
      have hstop : (span ((t :: u :: rest).take (n + 2))).stop =
          (span ((u :: rest).take (n + 1))).stop := by
        simp [span, List.getLast?_cons_cons]
      obtain ⟨hlater, hdrop⟩ := ih hrest
      rw [hstop]
      refine ⟨?_, hdrop⟩
      have hle : t.stop ≤ u.start := hrest.cons.1.le
      omega

mutual

/-- The spans of comments and declarations, outside of the types among them. -/
def spans : Item → List Span
  | .comment c => [c.span]
  | .type head _ => [head.span]
  | .method head _ => [head.span]
  | .constructor head _ => [head.span]
  | .field head _ => [head.span]
  | .constant head _ => [head.span]
  | .rest _ members => spansAll members
  | _ => []

/-- Companion for several items. -/
def spansAll : List Item → List Span
  | [] => []
  | item :: items => spans item ++ spansAll items

end

theorem spansAll_append (items others : List Item) :
    spansAll (items ++ others) = spansAll items ++ spansAll others := by
  induction items with
  | nil => rfl
  | cons item items ih =>
    rw [List.cons_append, spansAll, spansAll, ih, List.append_assoc]

/-- The members of a type stand in a row strictly inside of it. -/
def Nests : Item → Prop
  | .type head members => ∃ inner outer, head.span.start < inner ∧ outer < head.span.stop ∧
      Row inner outer (spansAll members)
  | _ => True

/-- The items stand in a row, and so do the members of each type among them. -/
def ItemsInRow (lo hi : Nat) (items : List Item) : Prop :=
  Row lo hi (spansAll items) ∧ EverywhereAll Nests items

theorem ItemsInRow.append {others : List Item} (h : ItemsInRow lo mid items)
    (h' : ItemsInRow mid hi others) : ItemsInRow lo hi (items ++ others) := by
  refine ⟨?_, everywhereAll_append.mpr ⟨h.2, h'.2⟩⟩
  rw [spansAll_append]
  exact h.1.append h'.1

theorem ItemsInRow.mono (h : ItemsInRow mid hi items) (hle : lo ≤ mid) : ItemsInRow lo hi items :=
  ⟨h.1.mono hle (Nat.le_refl hi), h.2⟩

theorem ItemsInRow.cons (hspans : Row lo mid (spans item)) (hitem : Everywhere Nests item)
    (h : ItemsInRow mid hi items) : ItemsInRow lo hi (item :: items) :=
  ⟨hspans.append h.1, hitem, h.2⟩

/-- The comments in front of a tree stand in a row. -/
theorem itemsInRow_commentItems (h : InRow lo hi (t :: rest)) :
    ItemsInRow lo t.start (commentItems t) := by
  have hspans : spansAll (commentItems t) = t.comments.map Piece.span := by
    rw [commentItems]
    induction t.comments with
    | nil => rfl
    | cons p ps ih => rw [List.map_cons, spansAll, ih]; rfl
  have hitems : EverywhereAll Nests (commentItems t) := by
    rw [commentItems]
    induction t.comments with
    | nil => trivial
    | cons p ps ih => exact ⟨trivial, ih⟩
  refine ⟨?_, hitems⟩
  rw [hspans]
  exact h.cons.1

/-- A type ends with its body, and stands in front of what comes behind it. -/
theorem inRow_typeHead? {m n start : Nat} {front : List (List Tree)} {head : TypeSyntax}
    {body : List Tree} (h : InRow lo hi (t :: rest))
    (hhead : typeHead? start front ((t :: rest).drop m) = some (head, body, n)) :
    head.span.start = start ∧ InRow head.span.stop hi (rest.drop (m + n - 1)) ∧
      ∃ inner outer, t.start < inner ∧ outer < head.span.stop ∧ InRow inner outer body := by
  obtain ⟨run, u, after, hrun, hne, hgroup, rfl, hspan, rfl⟩ := exists_run_of_typeHead? hhead
  have hdrop : rest.drop (m + (run.length + 1) - 1) = after := by
    calc rest.drop (m + run.length)
        = (t :: rest).drop (m + (run.length + 1)) := rfl
      _ = after := by rw [← List.drop_drop, hrun]; simp
  have hcut : t :: rest = ((t :: rest).take m ++ run) ++ u :: after := by
    rw [List.append_assoc, ← hrun, List.take_append_drop]
  obtain ⟨first, more, hfirst⟩ :=
    List.exists_cons_of_ne_nil (List.append_ne_nil_of_right_ne_nil ((t :: rest).take m) hne)
  rw [hfirst] at hcut
  obtain ⟨rfl, -⟩ : t = first ∧ _ := List.cons.inj hcut
  rw [hcut] at h
  obtain ⟨mid, hfront, hu⟩ := InRow.append_iff.mp h
  obtain ⟨inner, outer, hinner, hbody, houter⟩ := hu.items hgroup
  obtain ⟨-, hpos, hmore⟩ := hfront.cons
  have hmid : t.stop ≤ mid := hmore.le
  have hstart : mid ≤ u.start := hu.cons.1.le
  rw [hdrop, hspan]
  exact ⟨rfl, hu.cons.2.2, inner, outer, by omega, houter, hbody⟩

/-- A type is a row of its own, and its members stand in a row inside of it if they are read from
trees in a row. -/
theorem inRow_type {m n start : Nat} {front : List (List Tree)} {head : TypeSyntax}
    {body : List Tree} {members : List Item} (h : InRow lo hi (t :: rest))
    (hhead : typeHead? start front ((t :: rest).drop m) = some (head, body, n))
    (hstart : start = t.start)
    (hmembers : ∀ inner outer, InRow inner outer body → ItemsInRow inner outer members) :
    Row t.start head.span.stop (spans (.type head members)) ∧
      Everywhere Nests (.type head members) ∧ InRow head.span.stop hi (rest.drop (m + n - 1)) := by
  obtain ⟨rfl, hdrop, inner, outer, hinner, houter, hbody⟩ := inRow_typeHead? h hhead
  obtain ⟨hrow, hnests⟩ := hmembers inner outer hbody
  have hle : inner ≤ outer := hbody.le
  refine ⟨⟨hstart.ge, by omega, Nat.le_refl _⟩, ⟨?_, hnests⟩, hdrop⟩
  exact ⟨inner, outer, by omega, houter, hrow⟩

/-- A span over the first trees of a row is itself a row, and the other trees stand behind it. -/
theorem inRow_covers {n : Nat} {s : Span} (h : InRow lo hi (t :: rest))
    (hs : Covers (t :: rest) s n) :
    Row t.start s.stop [s] ∧ InRow s.stop hi (rest.drop (n - 1)) := by
  obtain ⟨-, hn, rfl⟩ := hs
  obtain ⟨m, rfl⟩ := Nat.exists_eq_succ_of_ne_zero hn.ne'
  obtain ⟨hstart, hpos, hdrop⟩ := inRow_span h m
  exact ⟨⟨hstart.ge, by rw [hstart]; exact hpos, Nat.le_refl _⟩, hdrop⟩

/-- What a body declares stands in a row if its trees do. -/
theorem itemsInRow_bodyItems (fuel : Nat) (kind : Body) (h : InRow lo hi ts) :
    ItemsInRow lo hi (bodyItems fuel kind ts) := by
  induction fuel generalizing kind ts lo hi with
  | zero =>
    rw [bodyItems_zero]
    exact ⟨h.le, trivial⟩
  | succ fuel ih =>
    cases ts with
    | nil =>
      rw [bodyItems_nil]
      exact ⟨h.le, trivial⟩
    | cons t rest =>
      obtain ⟨-, hpos, hrest⟩ := h.cons
      have hcomments := itemsInRow_commentItems h
      have hitem : ∀ item n mid, Row t.start mid (spans item) → Everywhere Nests item →
          InRow mid hi (rest.drop n) →
          ItemsInRow lo hi (commentItems t ++ item :: bodyItems fuel kind (rest.drop n)) :=
        fun item n mid hspans hitem hdrop => hcomments.append (.cons hspans hitem (ih kind hdrop))
      have hcovers : ∀ item s n, spans item = [s] → Everywhere Nests item →
          Covers (t :: rest) s n →
          ItemsInRow lo hi (commentItems t ++ item :: bodyItems fuel kind (rest.drop (n - 1))) := by
        intro item s n hspans hnests hs
        obtain ⟨hrow, hdrop⟩ := inRow_covers h hs
        exact hitem item (n - 1) s.stop (by rw [hspans]; exact hrow) hnests hdrop
      -- Code between the declarations has no span of its own.
      have hcode : ∀ s inner n, ItemsInRow lo hi
          (commentItems t ++ .code s inner :: bodyItems fuel kind (rest.drop n)) :=
        fun s inner n => hitem _ n t.stop hpos.le trivial (hrest.drop n)
      have hshape := shapeCovers_memberShape kind (many modifier (t :: rest)) (t :: rest)
      have hstep := bodyStep fuel kind t rest
      generalize bodyItems (fuel + 1) kind (t :: rest) = items at hstep ⊢
      cases hstep with
      | skip => exact hcomments.append ((ih kind hrest).mono hpos.le)
      | rest =>
        -- The members behind the constants of an enum stand in the same row.
        obtain ⟨hrow, hnests⟩ := (ih .members hrest).mono hpos.le
        refine hcomments.append ⟨?_, hnests, trivial⟩
        show Row t.start hi (spansAll (bodyItems fuel .members rest) ++ [])
        rw [List.append_nil]
        exact hrow
      | constant hkind hconstant =>
        have hspan := covers_constantShape (List.cons_ne_nil t rest)
        rw [hconstant] at hspan
        exact hcovers _ _ _ rfl trivial hspan
      | type hkind hhead =>
        obtain ⟨hrow, hnests, hdrop⟩ := inRow_type h hhead rfl fun inner outer hbody =>
          ih _ hbody
        exact hitem _ _ _ hrow hnests hdrop
      | block | unknown => exact hcode _ _ _
      | method hkind hmember =>
        rw [hmember] at hshape
        exact hcovers _ _ _ rfl trivial hshape.1
      | constructor hkind hmember | field hkind hmember =>
        rw [hmember] at hshape
        exact hcovers _ _ _ rfl trivial hshape

/-- The first item of a unit stands in front of the trees that are left. -/
theorem row_unitItem (h : InRow lo hi (t :: rest)) :
    Everywhere Nests (unitItem t rest).1 ∧ ∃ mid, Row t.start mid (spans (unitItem t rest).1) ∧
      InRow mid hi (rest.drop ((unitItem t rest).2 - 1)) := by
  obtain ⟨-, hpos, hrest⟩ := h.cons
  have hstep := unitStep t rest
  generalize unitItem t rest = item at hstep ⊢
  cases hstep with
  | package | imported | module | code =>
    -- Items other than declarations have no span of their own.
    exact ⟨trivial, t.stop, hpos.le, hrest.drop _⟩
  | type hhead =>
    obtain ⟨hrow, hnests, hdrop⟩ := inRow_type h hhead rfl fun inner outer hbody =>
      itemsInRow_bodyItems _ _ hbody
    exact ⟨hnests, _, hrow, hdrop⟩
  | method hmember =>
    have hshape := shapeCovers_memberShape .members (many modifier (t :: rest)) (t :: rest)
    rw [hmember] at hshape
    obtain ⟨hrow, hdrop⟩ := inRow_covers h hshape.1
    exact ⟨trivial, _, hrow, hdrop⟩

theorem itemsInRow_unitItems (fuel : Nat) (ts : List Tree) :
    ∀ lo, InRow lo hi ts → ItemsInRow lo hi (unitItems fuel ts) := by
  refine unitItems_induction (P := fun ts items => ∀ lo, InRow lo hi ts → ItemsInRow lo hi items)
    ?_ ?_ ?_ fuel ts
  · exact fun _ lo h => ⟨h.le, trivial⟩
  · intro t rest items ih lo h
    obtain ⟨-, hpos, hrest⟩ := h.cons
    exact (itemsInRow_commentItems h).append ((ih _ hrest).mono hpos.le)
  · intro t rest items ih lo h
    obtain ⟨hnests, mid, hspans, hdrop⟩ := row_unitItem h
    exact (itemsInRow_commentItems h).append (.cons hspans hnests (ih mid hdrop))

/-- The items of a source stand in a row, and those of a type in a row inside of it. -/
theorem itemsInRow_items (source : Text.Bytes) : ItemsInRow 0 source.length (Reader.items source) :=
  itemsInRow_unitItems _ _ 0 (Tree.inRow_ofSource source)

end Reader

end Apidoc.Java
