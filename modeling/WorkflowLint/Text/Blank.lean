/-! White space: the characters with the Unicode property White_Space, and the words between them. -/

set_option autoImplicit false

namespace WorkflowLint.Text

def isBlank (c : Char) : Bool :=
  let n := c.toNat
  (9 ≤ n && n ≤ 13) || n == 0x20 || n == 0x85 || n == 0xA0 || n == 0x1680 ||
    (0x2000 ≤ n && n ≤ 0x200A) || n == 0x2028 || n == 0x2029 || n == 0x202F || n == 0x205F ||
    n == 0x3000

/-- The maximal runs of characters that are not blank, in order. -/
def words (cs : List Char) : List (List Char) :=
  go [] cs
where
  go (word : List Char) : List Char → List (List Char)
    | [] => if word.isEmpty then [] else [word.reverse]
    | c :: rest =>
      if isBlank c then
        if word.isEmpty then go [] rest else word.reverse :: go [] rest
      else go (c :: word) rest

def trim (cs : List Char) : List Char :=
  ((cs.dropWhile isBlank).reverse.dropWhile isBlank).reverse

theorem words_nil : words [] = [] := rfl

theorem words_go_break {blank : Char} (isBlank_blank : isBlank blank = true) (word before after : List Char) :
    words.go word (before ++ blank :: after) = words.go word before ++ words.go [] after := by
  induction before generalizing word with
  | nil =>
    rw [List.nil_append, words.go, words.go, if_pos isBlank_blank]
    split <;> rfl
  | cons c rest ih =>
    rw [List.cons_append, words.go, words.go]
    split
    · split
      · exact ih []
      · rw [ih, List.cons_append]
    · exact ih _

theorem words_break {blank : Char} (isBlank_blank : isBlank blank = true) (before after : List Char) :
    words (before ++ blank :: after) = words before ++ words after :=
  words_go_break isBlank_blank [] before after

end WorkflowLint.Text
