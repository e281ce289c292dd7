import Quire.Text.Basic

/-!
The script that a server runs to find the route of an address and render its page.
-/

namespace Quire.Route

/-- The script, which imports the route table beside it. -/
def serverScript : Text :=
  [
    "// Server entry generated by pagewright. Do not edit.\n",
    "\n",
    "import \x7b routes, metadata \x7d from \"./routes.js\";\n",
    "\n",
    "const trimSlash = (path) => (path.length > 1 ? path.replace(/\\/+$/, \"\") : path);\n",
    "\n",
    "/// Find the route for a URL path, ignoring query and trailing slash.\n",
    "export function match(url) \x7b\n",
    "  const path = trimSlash(String(url).split(/[?#]/)[0] || \"/\");\n",
    "  return routes.find((route) => route.path === path) ?? null;\n",
    "\x7d\n",
    "\n",
    "/// Render a URL to HTML, wrapping the page in its layout when it has one.\n",
    "export function render(url, props = \x7b\x7d) \x7b\n",
    "  const route = match(url);\n",
    "  if (!route) return null;\n",
    "\n",
    "  const body = route.page(props);\n",
    "  return route.layout ? route.layout(\x7b ...props, children: body \x7d) : body;\n",
    "\x7d\n",
    "\n",
    "export \x7b routes, metadata \x7d;\n"].flatMap String.toList

end Quire.Route
