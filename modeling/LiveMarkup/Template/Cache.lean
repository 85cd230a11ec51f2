import LiveMarkup.Template.Compile

/-!
# Compiled templates, kept

A cache keeps one compiled template for every list of segments that was
compiled through it. Lists are told apart segment by segment, so lists that
merely join to the same text have templates of their own. What cannot be
compiled is not kept.
-/

namespace LiveMarkup

structure TemplateCache where
  entries : List (List String × CompiledTemplate)
  /-- The number of the next template, kept or not. -/
  next : Nat

namespace TemplateCache

/-- The cache that keeps nothing. -/
def empty : TemplateCache := ⟨[], 0⟩

instance : Inhabited TemplateCache := ⟨empty⟩

/-- How many templates are kept. -/
def size (c : TemplateCache) : Nat := c.entries.length

/-- Compiles segments without looking at the cache or adding to it. -/
def compileFresh (c : TemplateCache) (segments : List String) :
    Except MarkupError (CompiledTemplate × TemplateCache) := do
  let template ← Template.ofSegments segments
  return (⟨c.next, template⟩, { c with next := c.next + 1 })

/-- The template kept for segments; if there is none, compiles and keeps it. -/
def compile (c : TemplateCache) (segments : List String) :
    Except MarkupError (CompiledTemplate × TemplateCache) :=
  match c.entries.lookup segments with
  | some template => .ok (template, c)
  | none => do
      let (template, c) ← c.compileFresh segments
      return (template, { c with entries := c.entries ++ [(segments, template)] })

end TemplateCache

/-- Splits text at every pair of empty braces, from left to right. -/
def splitPlaceholders (source : String) : List String :=
  (go [] source.toList).map String.ofList
where
  /-- The pieces of the rest, the first of which begins with `piece` in
  reverse. -/
  go (piece : List Char) : List Char → List (List Char)
    | [] => [piece.reverse]
    | '\x7b' :: '\x7d' :: rest => piece.reverse :: go [] rest
    | c :: rest => go (c :: piece) rest

end LiveMarkup
