import Quire.Text.Basic

/-!
The script that a browser runs to bring islands to life, with a token where the list of their
components goes.
-/

namespace Quire.Interchange

/-- The token that the list of components replaces. -/
def listToken : Text := "__PAGEWRIGHT_COMPONENTS__".toList

/-- The script around the token. -/
def clientScript : Text :=
  [
    "// Client entry generated by pagewright. Do not edit.\n",
    "\n",
    "const components = __PAGEWRIGHT_COMPONENTS__;\n",
    "\n",
    "const byId = new Map(components.map((component) => [component.id, component]));\n",
    "\n",
    "/// Mount every island under `root` with its component module.\n",
    "export async function hydrate(root = document) \x7b\n",
    "  for (const island of root.querySelectorAll(\"[data-island]\")) \x7b\n",
    "    const component = byId.get(island.dataset.island);\n",
    "    if (!component) continue;\n",
    "\n",
    "    const module = await component.import();\n",
    "    const mount = module.mount ?? module.default;\n",
    "    if (typeof mount !== \"function\") continue;\n",
    "\n",
    "    const props = JSON.parse(island.dataset.props || \"\x7b\x7d\");\n",
    "    const html = mount(island, props);\n",
    "    if (typeof html === \"string\") island.innerHTML = html;\n",
    "  \x7d\n",
    "\x7d\n",
    "\n",
    "if (document.readyState === \"loading\") \x7b\n",
    "  document.addEventListener(\"DOMContentLoaded\", () => hydrate());\n",
    "\x7d else \x7b\n",
    "  hydrate();\n",
    "\x7d\n",
    "\n",
    "export \x7b components \x7d;\n"].flatMap String.toList

end Quire.Interchange
