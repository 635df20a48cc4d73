/-
# Texts in order

Texts are ordered by code point, character by character, and a text comes before its extensions.
-/

namespace PhpCatalog.Text

/-- Texts in ascending order. -/
def sortTexts (texts : List String) : List String :=
  texts.mergeSort fun a b => decide (a ≤ b)

/-- The different texts of a list, in ascending order. -/
def sortDistinct (texts : List String) : List String :=
  sortTexts texts.eraseDups

end PhpCatalog.Text
