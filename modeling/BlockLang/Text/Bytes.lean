import BlockLang.Text.Blank

/-!
# Bytes of a text

Texts are stored in UTF-8, where a character takes one to four bytes.
-/

namespace BlockLang.Text

def bytes (t : Text) : ByteArray := (String.ofList t).toUTF8

def byteLength : Text → Nat
  | [] => 0
  | c :: t => c.utf8Size + byteLength t

/-- Drops as many characters as fit into `n` bytes. -/
def dropBytes : Nat → Text → Text
  | _, [] => []
  | n, c :: t => if c.utf8Size ≤ n then dropBytes (n - c.utf8Size) t else c :: t

theorem byteLength_append (t u : Text) : byteLength (t ++ u) = byteLength t + byteLength u := by
  induction t with
  | nil => simp [byteLength]
  | cons c t ih => simp [byteLength, ih, Nat.add_assoc]

theorem dropBytes_append (t u : Text) : dropBytes (byteLength t) (t ++ u) = dropBytes 0 u := by
  induction t with
  | nil => simp [byteLength]
  | cons c t ih => simp [byteLength, dropBytes, ih]

end BlockLang.Text
