import RegisterMap.Text.Edit

/-!
# Placeholders

The mark `%s` stands for the index of an array element in names and descriptions. It is put in the
place of an index, replaced by an index, or left out.
-/

namespace RegisterMap.Placeholder

/-- The characters of the placeholder. -/
def mark : List Char := ['%', 's']

/-- Puts the placeholder in place of the first occurrence of the index that follows another
character of its line; `armed` tells whether such a character came just before. -/
def insertAfter (index : List Char) : (armed : Bool) → List Char → List Char
  | armed, [] => if armed && index.isEmpty then mark else []
  | armed, c :: cs =>
    if armed && index.isPrefixOf (c :: cs) then mark ++ (c :: cs).drop index.length
    else c :: insertAfter index (c != '\n') cs

/-- The text with a placeholder for the index, or as it is when there is no index. -/
def insert (index : Option String) (s : String) : String :=
  match index with
  | none => s
  | some i => .ofList (insertAfter i.toList false s.toList)

@[simp] theorem insert_none (s : String) : insert none s = s := rfl

/-- Whether the text has a placeholder. -/
def isIn (s : String) : Bool := Text.occurs mark s.toList

/-- The number of placeholders. -/
def count (s : String) : Nat := Text.occurrences mark 0 s.toList

/-- The text ends in a placeholder, with square brackets around it or without. -/
def isLast (s : String) : Bool := mark.isSuffixOf s.toList || "[%s]".toList.isSuffixOf s.toList

/-- The text with the index in every placeholder. -/
def fill (index s : String) : String := Text.replaceAll "%s" index s

/-- The name without placeholders and the brackets around them. -/
def dropFrom (s : String) : String := Text.replaceAll "%s" "" (Text.replaceAll "[%s]" "" s)

end RegisterMap.Placeholder
