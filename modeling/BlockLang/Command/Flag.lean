import BlockLang.Text.Likeness

/-!
# Flags

The options that the command knows. Both ask for a text in place of a compilation, and take no
value.
-/

namespace BlockLang.Command

inductive Flag where
  | help
  | version
  deriving DecidableEq, Repr

namespace Flag

def all : List Flag := [help, version]

/-- The name of a flag, which stands behind two dashes. -/
def name : Flag → Text
  | help => "help".toList
  | version => "version".toList

/-- The letter of a flag, which stands behind one dash. -/
def letter : Flag → Char
  | help => 'h'
  | version => 'V'

def spelling (f : Flag) : Text := '-' :: '-' :: f.name

def ofName? (name : Text) : Option Flag := all.find? (·.name == name)

def ofLetter? (c : Char) : Option Flag := all.find? (·.letter == c)

/-- The flag that a misspelt name may have been meant for: the one with the name that is most like
it, if one is like it at all, and the later of two that are equally so. -/
def meant? (name : Text) : Option Flag :=
  all.foldl (fun best f =>
    let l := Likeness.ofTexts name f.name
    if !l.isStrong then best
    else
      match best with
      | some g => if l.isBelow (Likeness.ofTexts name g.name) then best else some f
      | none => some f) none

end Flag

end BlockLang.Command
