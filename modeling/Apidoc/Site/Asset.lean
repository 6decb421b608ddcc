import Apidoc.Failure

/-!
# `Apidoc.Site.Asset`: the stylesheet and the script of a site

Two files are the same for every site. They are found by a path that may not lead out of the place
where they are kept.
-/

set_option autoImplicit false

namespace Apidoc.Site

open Apidoc.Files (Path)

/-- The lines of the stylesheet. -/
def stylesheetLines : List String :=
  ["html \x7b", "  font-family: system-ui, -apple-system, \"Segoe UI\", sans-serif;",
    "  font-size: 15px;", "  line-height: 1.6;", "  color: #24292f;", "  background: #f6f8fa;",
    "\x7d", "", "body \x7b", "  margin: 0;", "\x7d", "", "header.site \x7b",
    "  position: sticky;", "  top: 0;", "  display: flex;", "  align-items: baseline;",
    "  gap: 2rem;", "  padding: 0.5rem 2rem;", "  background: #ffffff;",
    "  border-bottom: 1px solid #0969da;", "  z-index: 10;", "\x7d", "", "header.site h1 \x7b",
    "  margin: 0;", "  font-size: 1.8rem;", "  font-weight: normal;", "  color: #0969da;", "\x7d",
    "", "main \x7b", "  display: flex;", "  max-width: 1400px;", "  margin: 0 auto;", "\x7d", "",
    "nav.types \x7b", "  flex: 0 0 18rem;", "  padding: 1rem;", "\x7d", "",
    "nav.types input \x7b", "  width: 100%;", "  box-sizing: border-box;", "  padding: 0.3rem;",
    "  margin-bottom: 0.5rem;", "\x7d", "", "nav.types ul \x7b", "  list-style: none;",
    "  padding: 0;", "  margin: 0;", "\x7d", "", "nav.types li[hidden] \x7b", "  display: none;",
    "\x7d", "", "nav.types .kind \x7b", "  display: inline-block;", "  width: 1.2rem;",
    "  font-size: 0.75rem;", "  color: #57606a;", "\x7d", "", "article \x7b", "  flex: 1 1 auto;",
    "  min-width: 0;", "  margin: 0 2rem;", "\x7d", "", "section \x7b", "  margin: 1.5rem 0;",
    "  padding: 1rem 1.5rem;", "  background: #ffffff;", "  border-radius: 4px;", "\x7d", "",
    "section > header \x7b", "  position: relative;", "\x7d", "", "section > header a.edit \x7b",
    "  position: absolute;", "  top: 0;", "  right: 0;", "  font-size: 0.8rem;", "\x7d", "",
    "pre \x7b", "  overflow: auto;", "  padding: 0.8rem;", "  background: #f6f8fa;",
    "  border-radius: 4px;", "\x7d", "", "code \x7b",
    "  font-family: ui-monospace, \"SFMono-Regular\", Consolas, monospace;",
    "  font-size: 0.9em;", "\x7d", "", ".signature \x7b",
    "  font-family: ui-monospace, \"SFMono-Regular\", Consolas, monospace;", "  color: #57606a;",
    "\x7d", "", ".hierarchy dt \x7b", "  font-weight: bold;", "\x7d", "", ".deprecated \x7b",
    "  color: #cf222e;", "\x7d", "", "aside.members \x7b", "  flex: 0 0 14rem;",
    "  padding: 1rem;", "  white-space: nowrap;", "  overflow: auto;", "\x7d"]

/-- The lines of the script that filters the list of types. -/
def scriptLines : List String :=
  ["// Type list filtering over the serialized model in root.js", "(function () \x7b",
    "  const nav = document.querySelector(\"nav.types\");",
    "  if (!nav || typeof root === \"undefined\") return;", "",
    "  const base = nav.dataset.base || \"\";",
    "  const input = document.createElement(\"input\");", "  input.type = \"search\";",
    "  input.placeholder = \"Filter types\";", "  nav.appendChild(input);", "",
    "  const select = document.createElement(\"select\");",
    "  const kinds = [\"\", ...new Set(root.types.map(t => t.type))];",
    "  for (const kind of kinds) \x7b", "    const option = document.createElement(\"option\");",
    "    option.value = kind;", "    option.textContent = kind || \"All kinds\";",
    "    select.appendChild(option);", "  \x7d", "  nav.appendChild(select);", "",
    "  const list = document.createElement(\"ul\");",
    "  const items = root.types.map(type => \x7b",
    "    const li = document.createElement(\"li\");",
    "    const badge = document.createElement(\"span\");", "    badge.className = \"kind\";",
    "    badge.textContent = type.type.charAt(0);", "    badge.title = type.type;",
    "    const link = document.createElement(\"a\");",
    "    link.href = `$\x7bbase\x7dtypes/$\x7btype.packageName ? type.packageName + \".\" : \"\"\x7d$\x7btype.name\x7d.html`;",
    "    link.textContent = type.name;", "    link.title = type.packageName;",
    "    li.append(badge, link);", "    list.appendChild(li);", "    return \x7b type, li \x7d;",
    "  \x7d);", "  nav.appendChild(list);", "", "  const update = () => \x7b",
    "    const text = input.value.toLowerCase();", "    const kind = select.value;",
    "    for (const \x7b type, li \x7d of items) \x7b",
    "      const name = `$\x7btype.packageName\x7d.$\x7btype.name\x7d`.toLowerCase();",
    "      li.hidden = !(name.includes(text) && (!kind || type.type === kind));", "    \x7d",
    "  \x7d;", "  input.addEventListener(\"input\", update);",
    "  select.addEventListener(\"change\", update);", "\x7d)();"]

/-- Lines with a line feed after each. -/
def asText (ls : List String) : String := String.join (ls.map (· ++ "\n"))

/-- The files that are the same for every site. -/
def assets : List (String × String) :=
  [("main.css", asText stylesheetLines), ("main.js", asText scriptLines)]

/-- The text of an asset. -/
def asset (path : String) : Except Failure String :=
  let p := Path.ofString path
  if p.isAbsolute ∨ ".." ∈ p.names then .error (.assetPath path)
  else
    match p.names with
    | [] => .error (.file { fault := .isDirectory, path := p })
    | name :: rest =>
      match assets.find? fun a => a.1 = name with
      | none => .error (.file { fault := .notFound, path := p })
      | some (_, text) =>
        if rest = [] then .ok text else .error (.file { fault := .notDirectory, path := p })

end Apidoc.Site
