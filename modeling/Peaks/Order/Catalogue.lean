import Peaks.Order.Basic

/-!
# Named rules

The projections, "less" tests and three-way comparisons that can be asked for by name. A rule that
takes only some kinds of operands checks them from left to right.

- `KeyRule.named?`, `LessRule.named?`, `ThreeWayRule.named?`
-/

namespace Peaks

namespace Payload

/-- The operand of a rule on whole numbers. -/
def wholeFor (rule : String) (p : Payload) : Except Fault Int :=
  match p.whole? with
  | some n => .ok n
  | none => .error (.unsupportedOperand rule p.kind)

/-- The length of the operand of a rule on texts and sequences. -/
def lengthFor (rule : String) (p : Payload) : Except Fault Nat :=
  match p.length? with
  | some n => .ok n
  | none => .error (.unsupportedOperand rule p.kind)

end Payload

/-! ## Projections -/

namespace KeyRule

def onWhole (name : String) (f : Int → Int) : KeyRule where
  name := name
  apply p := do
    let n ← p.wholeFor name
    return .int (f n)

/-- Lower-cases the letters A to Z and no others. -/
def lower : KeyRule where
  name := "lower"
  apply p :=
    match p.content with
    | .text s => .ok (.text (s.map Char.toLower))
    | _ => .error (.unsupportedOperand "lower" p.kind)

def length : KeyRule where
  name := "len"
  apply p := do
    let n ← p.lengthFor "len"
    return .int n

/-- The first item of a tuple or list. -/
def first : KeyRule where
  name := "first"
  apply p :=
    match p.content with
    | .tuple (item :: _) => .ok item
    | .tuple [] => .error (.noFirstItem .tuple)
    | .list (item :: _) => .ok item
    | .list [] => .error (.noFirstItem .list)
    | _ => .error (.unsupportedOperand "first" p.kind)

def identity : KeyRule where
  name := "ident"
  apply p := .ok p

def all : List KeyRule :=
  [onWhole "neg" (-·),
   onWhole "abs" (fun n => n.natAbs),
   onWhole "tens" (·.fdiv 10),
   onWhole "mod3" (·.fmod 3),
   lower, length, first, identity]

def named? (name : String) : Option KeyRule :=
  all.find? (·.name == name)

end KeyRule

/-! ## Less tests -/

namespace LessRule

def all : List LessRule :=
  [{ name := "lt", holds := Payload.lt? },
   { name := "gt", holds := fun a b => b.lt? a },
   { name := "abs_lt"
     holds := fun a b => do
       let m ← a.wholeFor "abs_lt"
       let n ← b.wholeFor "abs_lt"
       return m.natAbs < n.natAbs },
   { name := "len_lt"
     holds := fun a b => do
       let m ← a.lengthFor "len_lt"
       let n ← b.lengthFor "len_lt"
       return m < n },
   { name := "never", holds := fun _ _ => .ok false }]

def named? (name : String) : Option LessRule :=
  all.find? (·.name == name)

end LessRule

/-! ## Three-way comparisons -/

namespace ThreeWayRule

def onWhole (name : String) (f : Int → Int → Int) : ThreeWayRule where
  name := name
  compare a b := do
    let m ← a.wholeFor name
    let n ← b.wholeFor name
    return f m n

/-- Compares by `<`, the second operand asked for first. -/
def byGreater : ThreeWayRule where
  name := "cmp3"
  compare a b := do
    if ← b.lt? a then
      return 1
    if ← a.lt? b then
      return -1
    return 0

def all : List ThreeWayRule :=
  [onWhole "sub" (fun m n => m - n),
   onWhole "rsub" (fun m n => n - m),
   { name := "zero", compare := fun _ _ => .ok 0 },
   byGreater,
   onWhole "tens_diff" (fun m n => m.fdiv 10 - n.fdiv 10)]

def named? (name : String) : Option ThreeWayRule :=
  all.find? (·.name == name)

end ThreeWayRule

end Peaks
