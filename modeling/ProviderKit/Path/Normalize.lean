import ProviderKit.Path.Basic

-- Lists of paths in normal form: sorted by their text, and no path twice. Two different
-- paths can share a text, because an unknown element shows as the text that stands for
-- it; both are kept, in the order they came in.

namespace ProviderKit.Path

/-- The text of the first path comes no later, by code point. -/
def notAfter (p q : String × Path) : Bool := !(q.1 < p.1)

/-- Drop each path that equals a kept one of the same text. The paths come sorted, and
`kept` holds the paths of the current text. -/
def dropRepeated : (text : String) → (kept : List Path) → List (String × Path) → List Path
  | _, _, [] => []
  | text, kept, (t, p) :: rest =>
    let kept := if t = text then kept else []
    if kept.any fun q => q.same p then dropRepeated t kept rest
    else p :: dropRepeated t (kept ++ [p]) rest

/-- Sort paths by their text and drop repeated ones. -/
def normalize (paths : List Path) : List Path :=
  let sorted := (paths.map fun p => (p.display, p)).mergeSort notAfter
  dropRepeated "" [] sorted

end ProviderKit.Path
