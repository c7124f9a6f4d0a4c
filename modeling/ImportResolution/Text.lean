/-! Cutting and matching of text. Every operation acts on the characters of a string; a cut returns
the two sides without the separator. -/
namespace ImportResolution.Text

/-- The pieces of `s` between occurrences of `sep`; there is always at least one. -/
def splitOn (sep : Char) (s : String) : List String := (s.toList.splitOn sep).map String.ofList

def startsWith (head s : String) : Bool := head.toList.isPrefixOf s.toList
def endsWith (tail s : String) : Bool := tail.toList.isSuffixOf s.toList

/-- What follows `head` in `s`. -/
def afterHead? (head s : String) : Option String :=
  (head.toList.isPrefixOf? s.toList).map String.ofList

/-- What precedes `tail` in `s`. -/
def beforeTail? (tail s : String) : Option String :=
  (tail.toList.isSuffixOf? s.toList).map String.ofList

@[simp] theorem startsWith_iff (head s : String) :
    startsWith head s = true ↔ head.toList <+: s.toList := by
  simp [startsWith]
@[simp] theorem endsWith_iff (tail s : String) :
    endsWith tail s = true ↔ tail.toList <:+ s.toList := by
  simp [endsWith]

theorem exists_of_startsWith {head s : String} (h : startsWith head s = true) : ∃ rest, s = head ++ rest := by
  obtain ⟨r,hr⟩ := (startsWith_iff head s).mp h
  exact ⟨String.ofList r,String.toList_inj.mp (by simp [← hr])⟩

theorem exists_of_endsWith {tail s : String} (h : endsWith tail s = true) : ∃ front, s = front ++ tail := by
  obtain ⟨r,hr⟩ := (endsWith_iff tail s).mp h
  exact ⟨String.ofList r,String.toList_inj.mp (by simp [← hr])⟩

theorem startsWith_append (head rest : String) : startsWith head (head ++ rest) = true := by simp

theorem endsWith_append (front tail : String) : endsWith tail (front ++ tail) = true := by simp

theorem isPrefixOf?_eq_some_iff {α : Type} [BEq α] [LawfulBEq α] {head s r : List α} :
    head.isPrefixOf? s = some r ↔ head ++ r = s := by
  induction head generalizing s with
  | nil => exact Option.some_inj.trans eq_comm
  | cons a head ih =>
    cases s with
    | nil =>
      constructor <;> intro h <;> cases h
    | cons b s =>
      have hs : (a :: head).isPrefixOf? (b :: s) =
          if a == b then head.isPrefixOf? s else none := rfl
      rw [hs]
      by_cases hc : a = b <;> simp [hc,ih]

theorem isSuffixOf?_eq_some_iff {tail s r : List Char} :
    tail.isSuffixOf? s = some r ↔ r ++ tail = s := by
  have hs : tail.isSuffixOf? s = (tail.reverse.isPrefixOf? s.reverse).map List.reverse := rfl
  simp only [hs,Option.map_eq_some_iff,isPrefixOf?_eq_some_iff]
  constructor
  · rintro ⟨a,h,rfl⟩
    simpa using congrArg List.reverse h
  · rintro rfl
    exact ⟨r.reverse,by simp,by simp⟩

theorem afterHead?_eq_some_iff {head s r : String} : afterHead? head s = some r ↔ head ++ r = s := by
  rw [afterHead?,Option.map_eq_some_iff,← String.toList_inj]
  constructor
  · rintro ⟨x,hx,rfl⟩
    simpa using isPrefixOf?_eq_some_iff.mp hx
  · intro h
    exact ⟨r.toList,isPrefixOf?_eq_some_iff.mpr (by simpa using h),by simp⟩

theorem beforeTail?_eq_some_iff {tail s r : String} :
    beforeTail? tail s = some r ↔ r ++ tail = s := by
  rw [beforeTail?,Option.map_eq_some_iff,← String.toList_inj]
  constructor
  · rintro ⟨x,hx,rfl⟩
    simpa using isSuffixOf?_eq_some_iff.mp hx
  · intro h
    exact ⟨r.toList,isSuffixOf?_eq_some_iff.mpr (by simpa using h),by simp⟩

theorem beforeTail?_eq_none {tail s : String} (h : endsWith tail s = false) :
    beforeTail? tail s = none := by
  rw [Option.eq_none_iff_forall_ne_some]
  intro r hr
  rw [← beforeTail?_eq_some_iff.mp hr,endsWith_append] at h
  cases h

def hasChar (c : Char) (s : String) : Bool := s.toList.contains c

/-- Cuts at the first place where `pattern` occurs. -/
def cutChars? (pattern : List Char) : List Char → Option (List Char × List Char)
  | [] => if pattern = [] then some ([],[]) else none
  | c :: r =>
    match pattern.isPrefixOf? (c :: r) with
    | some rest => some ([],rest)
    | none => (cutChars? pattern r).map fun cut => (c :: cut.1,cut.2)

theorem append_of_cutChars? {pattern s : List Char} {cut : List Char × List Char}
    (h : cutChars? pattern s = some cut) : cut.1 ++ pattern ++ cut.2 = s := by
  induction s generalizing cut with
  | nil =>
    simp only [cutChars?] at h
    split at h <;> simp_all
    subst h; simp
  | cons c r ih =>
    simp only [cutChars?] at h
    split at h
    · next rest hr =>
      obtain ⟨rfl⟩ := Option.some.inj h
      simpa using isPrefixOf?_eq_some_iff.mp hr
    · obtain ⟨inner,hi,rfl⟩ := Option.map_eq_some_iff.mp h
      have := ih hi
      simpa using this

/-- Cuts at the last occurrence of `c`. -/
def cutLastChars? (c : Char) : List Char → Option (List Char × List Char)
  | [] => none
  | x :: r =>
    match cutLastChars? c r with
    | some cut => some (x :: cut.1,cut.2)
    | none => if x = c then some ([],r) else none

theorem cutLastChars?_eq_none (c : Char) (s : List Char) : cutLastChars? c s = none ↔ c ∉ s := by
  induction s with
  | nil => simp [cutLastChars?]
  | cons x r ih =>
    cases h : cutLastChars? c r with
    | some cut =>
      have hc : c ∈ r := Classical.byContradiction fun hn => by simp [ih.mpr hn] at h
      simp [cutLastChars?,h,hc]
    | none => simp [cutLastChars?,h,ih.mp h,eq_comm]

theorem append_of_cutLastChars? {c : Char} {s : List Char} {cut : List Char × List Char}
    (h : cutLastChars? c s = some cut) : cut.1 ++ c :: cut.2 = s ∧ c ∉ cut.2 := by
  induction s generalizing cut with
  | nil => simp [cutLastChars?] at h
  | cons x r ih =>
    simp only [cutLastChars?] at h
    split at h
    · next inner hi =>
      obtain ⟨rfl⟩ := Option.some.inj h
      have := ih hi
      simp_all
    · next hn =>
      split at h
      · obtain ⟨rfl⟩ := Option.some.inj h
        simp_all [cutLastChars?_eq_none]
      · simp at h

def pairOfChars (cut : List Char × List Char) : String × String :=
  (String.ofList cut.1,String.ofList cut.2)

def cut? (pattern s : String) : Option (String × String) :=
  (cutChars? pattern.toList s.toList).map pairOfChars

def cutLast? (c : Char) (s : String) : Option (String × String) :=
  (cutLastChars? c s.toList).map pairOfChars

/-- What precedes the first occurrence of `pattern`, or all of `s`. -/
def before (pattern s : String) : String := ((cut? pattern s).map Prod.fst).getD s

def contains (pattern s : String) : Bool := (cutChars? pattern.toList s.toList).isSome

/-- Puts `value` in the place of the first `c`. -/
def replaceFirst (c : Char) (value s : String) : String :=
  match cut? (String.singleton c) s with
  | some (a,b) => a ++ value ++ b
  | none => s

def replaceChar (c d : Char) (s : String) : String :=
  String.ofList (s.toList.map fun x => if x = c then d else x)

/-- Removes from the front the longest run of characters in `p`. -/
def dropWhile (p : Char → Bool) (s : String) : String := String.ofList (s.toList.dropWhile p)

def trimEndChars (p : Char → Bool) (s : List Char) : List Char := (s.reverse.dropWhile p).reverse
def trimChars (p : Char → Bool) (s : List Char) : List Char := trimEndChars p (s.dropWhile p)

def dropEndWhile (p : Char → Bool) (s : String) : String := String.ofList (trimEndChars p s.toList)
def trimWhere (p : Char → Bool) (s : String) : String := String.ofList (trimChars p s.toList)

/-- White space of every script. -/
def isBlank (c : Char) : Bool :=
  let n := c.toNat
  (9 ≤ n && n ≤ 13) || n = 32 || n = 0x85 || n = 0xA0 || n = 0x1680 || (0x2000 ≤ n && n ≤ 0x200A)
    || n = 0x2028 || n = 0x2029 || n = 0x202F || n = 0x205F || n = 0x3000

theorem isBlank_of_isWhitespace {c : Char} (h : c.isWhitespace = true) : isBlank c = true := by
  simp only [Char.isWhitespace,Bool.or_eq_true,decide_eq_true_eq] at h
  rcases h with ((h | h) | h) | h <;> subst h <;> rfl

def trim (s : String) : String := trimWhere isBlank s
def isAllBlank (s : String) : Bool := s.toList.all isBlank

/-- Inserts into a list without repetition that rises. -/
def insertSorted (s : String) : List String → List String
  | [] => [s]
  | t :: r => if s < t then s :: t :: r else if s = t then t :: r else t :: insertSorted s r

/-- The distinct strings of a list, rising. -/
def distinctSorted (xs : List String) : List String := xs.foldl (fun acc s => insertSorted s acc) []

@[simp] theorem mem_insertSorted (s x : String) (xs : List String) :
    x ∈ insertSorted s xs ↔ x = s ∨ x ∈ xs := by
  induction xs with
  | nil => simp [insertSorted]
  | cons t r ih =>
    simp only [insertSorted]
    split
    · simp
    · split
      · next h => subst h; simp
      · simp only [List.mem_cons,ih]
        constructor
        · rintro (h | h | h) <;> simp [h]
        · rintro (h | h | h) <;> simp [h]

theorem pairwise_insertSorted {s : String} {xs : List String} (h : xs.Pairwise (· < ·)) :
    (insertSorted s xs).Pairwise (· < ·) := by
  induction xs with
  | nil => simp [insertSorted]
  | cons t r ih =>
    obtain ⟨ht,hr⟩ := List.pairwise_cons.mp h
    simp only [insertSorted]
    split
    · next hst =>
      refine List.pairwise_cons.mpr ⟨?_,h⟩
      intro x hx
      rcases List.mem_cons.mp hx with rfl | hx
      · exact hst
      · exact String.lt_trans hst (ht x hx)
    · split
      · exact h
      · next hst hne =>
        refine List.pairwise_cons.mpr ⟨?_,ih hr⟩
        intro x hx
        rcases (mem_insertSorted s x r).mp hx with rfl | hx
        · have hle := String.not_lt.mp hst
          exact Classical.byContradiction fun hlt =>
            hne (String.le_antisymm (String.not_lt.mp hlt) hle)
        · exact ht x hx

theorem mem_foldl_insertSorted (x : String) (xs acc : List String) :
    x ∈ xs.foldl (fun acc s => insertSorted s acc) acc ↔ x ∈ acc ∨ x ∈ xs := by
  induction xs generalizing acc with
  | nil => simp
  | cons s r ih =>
    simp only [List.foldl_cons,ih,mem_insertSorted,List.mem_cons]
    constructor
    · rintro ((h | h) | h) <;> simp [h]
    · rintro (h | h | h) <;> simp [h]

@[simp] theorem mem_distinctSorted (x : String) (xs : List String) :
    x ∈ distinctSorted xs ↔ x ∈ xs := by
  simp [distinctSorted,mem_foldl_insertSorted]

theorem pairwise_foldl_insertSorted (xs : List String) {acc : List String}
    (h : acc.Pairwise (· < ·)) :
    (xs.foldl (fun acc s => insertSorted s acc) acc).Pairwise (· < ·) := by
  induction xs generalizing acc with
  | nil => exact h
  | cons s r ih => exact ih (pairwise_insertSorted h)

theorem pairwise_distinctSorted (xs : List String) : (distinctSorted xs).Pairwise (· < ·) :=
  pairwise_foldl_insertSorted xs List.Pairwise.nil

/-- The elements of a list at their first occurrence. -/
def distinct (xs : List String) : List String := xs.eraseDups

/-- Hexadecimal digit, in lower case. -/
def hexDigit (n : Nat) : Char := if n < 10 then Char.ofNat (48+n) else Char.ofNat (87+n)

end ImportResolution.Text
