import ImportResolution.Text
import ImportResolution.Text.CaseTable

/-! Folding to lower case, over ASCII alone and over all characters. Only the capital sigma depends
on its neighbours: at the end of a word it becomes the final form. -/
namespace ImportResolution.Text

def lowerAsciiChar (c : Char) : Char :=
  if 65 ≤ c.toNat ∧ c.toNat ≤ 90 then Char.ofNat (c.toNat+32) else c

def lowerAscii (s : String) : String := String.ofList (s.toList.map lowerAsciiChar)

@[simp] theorem toList_lowerAscii (s : String) :
    (lowerAscii s).toList = s.toList.map lowerAsciiChar := by simp [lowerAscii]

def inRanges (ranges : List (Nat × Nat)) (c : Char) : Bool :=
  ranges.any fun range => range.1 ≤ c.toNat && c.toNat ≤ range.2

def isCased (c : Char) : Bool := inRanges CaseTable.cased c
def isCaseIgnorable (c : Char) : Bool := inRanges CaseTable.caseIgnorable c

/-- A word goes on with a cased character after any that its case looks through. -/
def caseContinues (s : List Char) : Bool := ((s.dropWhile isCaseIgnorable).head?.map isCased).getD false

/-- Small form of one character; the dotted capital I keeps its dot as a mark. -/
def lowerChar (c : Char) : List Char :=
  if c.toNat < 128 then [lowerAsciiChar c]
  else if c.toNat = 0x130 then ['i',Char.ofNat 0x307]
  else
    match CaseTable.lower.find? fun run =>
      run.1 ≤ c.toNat && c.toNat ≤ run.2.1 && (c.toNat - run.1) % run.2.2.1 == 0 with
    | some run => [Char.ofNat ((c.toNat : Int) + run.2.2.2).toNat]
    | none => [c]

/-- Folds `s`, whose characters already passed are in `behind`, the last one first. -/
def lowerCharsFrom (behind : List Char) : List Char → List Char
  | [] => []
  | c :: r =>
    let small :=
      if c.toNat = 0x3A3 then
        if caseContinues behind && !caseContinues r then [Char.ofNat 0x3C2] else [Char.ofNat 0x3C3]
      else lowerChar c
    small ++ lowerCharsFrom (c :: behind) r

def lower (s : String) : String := String.ofList (lowerCharsFrom [] s.toList)

@[simp] theorem lowerCharsFrom_nil (behind : List Char) : lowerCharsFrom behind [] = [] := rfl
@[simp] theorem toList_lower (s : String) : (lower s).toList = lowerCharsFrom [] s.toList := by
  simp [lower]

end ImportResolution.Text
