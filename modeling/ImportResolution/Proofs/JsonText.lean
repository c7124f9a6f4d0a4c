import Mathlib.Data.List.Forall2
import ImportResolution.Json.Printer
import ImportResolution.Json.Reader

/-! JSON text read back. A value that is written on one line is read as it was, whatever closes behind
it; of numbers this is said of integers that fit into 64 bits. -/
namespace ImportResolution.Json

/-! Texts. -/

/-- A character as it is, or a control character by its number. -/
def TextUnit.Spells (u : TextUnit) (c : Char) : Prop :=
  u = .char c ∨ u = .code c.toNat ∧ c.toNat < 0x20

theorem assembleFrom_code (join : Nat → Nat → Char) (done : List Char) {n : Nat} (h : n < 0xD800)
    (units : List TextUnit) :
    assembleFrom join done (.code n :: units) = assembleFrom join (Char.ofNat n :: done) units := by
  have hh : isHigh n = false := by simp [isHigh]; omega
  have hl : isLow n = false := by simp [isLow]; omega
  rcases units with _ | ⟨_ | m,rest⟩ <;> simp [assembleFrom,hh,hl]

theorem assembleFrom_of_spells (join : Nat → Nat → Char) {units : List TextUnit} {cs : List Char}
    (h : List.Forall₂ TextUnit.Spells units cs) (done : List Char) :
    assembleFrom join done units = some (String.ofList (done.reverse ++ cs)) := by
  induction h generalizing done with
  | nil => simp [assembleFrom]
  | @cons u c units cs hu _ ih =>
    have hd : (c :: done).reverse ++ cs = done.reverse ++ c :: cs := by simp
    rcases hu with rfl | ⟨rfl,hc⟩
    · rw [assembleFrom,ih,hd]
    · rw [assembleFrom_code join done (by omega),Char.ofNat_toNat,ih,hd]

theorem hexValue?_hexDigit : ∀ n < 16, hexValue? (Text.hexDigit n) = some n := by decide

theorem readString_plain (done : List TextUnit) {c : Char} (hq : c ≠ '"') (hb : c ≠ '\\')
    (hc : ¬c.toNat < 0x20) (r : List Char) :
    readString done (c :: r) = readString (.char c :: done) r := by
  simp [readString,hb,hc]

/-- What is written for a character is read as one unit. -/
theorem exists_readString_escapeChar (c : Char) : ∃ u : TextUnit, u.Spells c ∧
    ∀ done r, readString done (escapeChar c ++ r) = readString (u :: done) r := by
  have hchar : ∀ n : Nat, c.toNat = n → c = Char.ofNat n := fun n h => by
    rw [← h,Char.ofNat_toNat]
  unfold escapeChar
  split
  · next h => exact ⟨.char c,.inl rfl,fun done r => by rw [h]; rfl⟩
  split
  · next h => exact ⟨.char c,.inl rfl,fun done r => by rw [h]; rfl⟩
  split
  · next h => exact ⟨.char c,.inl rfl,fun done r => by rw [h]; rfl⟩
  split
  · next h => exact ⟨.char c,.inl rfl,fun done r => by rw [h]; rfl⟩
  split
  · next h => exact ⟨.char c,.inl rfl,fun done r => by rw [h]; rfl⟩
  split
  · next h => exact ⟨.char c,.inl rfl,fun done r => by rw [hchar 8 h]; rfl⟩
  split
  · next h => exact ⟨.char c,.inl rfl,fun done r => by rw [hchar 12 h]; rfl⟩
  split
  · next h =>
    refine ⟨.code c.toNat,.inr ⟨rfl,h⟩,fun done r => ?_⟩
    have hx : hex4? '0' '0' (Text.hexDigit (c.toNat / 16)) (Text.hexDigit (c.toNat % 16)) =
        some c.toNat := by
      have h0 : hexValue? '0' = some 0 := by decide
      simp only [hex4?,h0,hexValue?_hexDigit _ (show c.toNat / 16 < 16 by omega),
        hexValue?_hexDigit _ (show c.toNat % 16 < 16 by omega)]
      exact congrArg some (by omega)
    simp only [List.cons_append,List.nil_append,readString,hx]
  · next hq hb _ _ _ _ _ hc =>
    exact ⟨.char c,.inl rfl,fun done r => readString_plain done hq hb hc r⟩

theorem exists_readString (cs : List Char) : ∃ units : List TextUnit,
    List.Forall₂ TextUnit.Spells units cs ∧ ∀ done r,
      readString done (cs.flatMap escapeChar ++ '"' :: r) =
        some (assemble? ofSurrogates (done.reverse ++ units),r) := by
  induction cs with
  | nil => exact ⟨[],.nil,fun done r => by simp [readString]⟩
  | cons c cs ih =>
    obtain ⟨units,hs,hr⟩ := ih
    obtain ⟨u,hu,hc⟩ := exists_readString_escapeChar c
    refine ⟨u :: units,.cons hu hs,fun done r => ?_⟩
    rw [List.flatMap_cons,List.append_assoc,hc,hr]
    simp

/-- A quoted text is read as it was. -/
theorem readString_quoted (s : String) (r : List Char) :
    readString [] (s.toList.flatMap escapeChar ++ '"' :: r) = some (some s,r) := by
  obtain ⟨units,hs,hr⟩ := exists_readString s.toList
  rw [hr,List.reverse_nil,List.nil_append,assemble?,assembleFrom_of_spells ofSurrogates hs]
  simp

/-! Numbers. -/

/-- What may stand behind a value on one line. -/
def Closes (r : List Char) : Prop := ∀ c ∈ r.head?, c = ',' ∨ c = ']' ∨ c = '\x7d'

theorem closes_cons {c : Char} (h : c = ',' ∨ c = ']' ∨ c = '\x7d') (r : List Char) :
    Closes (c :: r) := by
  intro d hd
  rwa [← Option.some.inj hd]

theorem readDigits {ds r : List Char} (hd : ∀ c ∈ ds, c.isDigit = true) (hr : Closes r) :
    (ds ++ r).takeWhile Char.isDigit = ds ∧ (ds ++ r).dropWhile Char.isDigit = r := by
  have hc : r.takeWhile Char.isDigit = [] ∧ r.dropWhile Char.isDigit = r := by
    cases r with
    | nil => exact ⟨rfl,rfl⟩
    | cons c r => rcases hr c rfl with rfl | rfl | rfl <;> exact ⟨rfl,rfl⟩
  rw [List.takeWhile_append_of_pos hd,List.dropWhile_append_of_pos hd,hc.1,hc.2]
  exact ⟨List.append_nil ds,rfl⟩

theorem digitsValue_toDigits (n : Nat) : digitsValue (Nat.toDigits 10 n) = n := by
  have h := Nat.ofDigitChars_ten_toDigits (n := n)
  rw [Nat.ofDigitChars_eq_foldl] at h
  simpa only [digitsValue,Nat.mul_comm,show '0'.toNat = 48 from rfl] using h

/-- No number starts with a zero but zero itself. -/
theorem head_toDigits {n : Nat} (h : n ≠ 0) : (Nat.toDigits 10 n).head? ≠ some '0' := by
  induction n using Nat.strongRecOn with
  | ind n ih =>
    rw [Nat.toDigits_eq_if (by decide)]
    split
    · simpa using h
    · next hn =>
      rw [List.head?_append_of_ne_nil _ Nat.toDigits_ne_nil]
      exact ih (n / 10) (by omega) (by omega)

theorem isDigit_toDigits (n : Nat) : ∀ c ∈ Nat.toDigits 10 n, c.isDigit = true := fun _ hc =>
  Nat.isDigit_of_mem_toDigits (by decide) (by decide) hc

theorem toList_ofNat (n : Nat) : (toString (Int.ofNat n)).toList = Nat.toDigits 10 n :=
  Nat.toList_repr

theorem toList_negSucc (n : Nat) :
    (toString (Int.negSucc n)).toList = '-' :: Nat.toDigits 10 (n+1) :=
  String.toList_append.trans (congrArg ('-' :: ·) Nat.toList_repr)

/-- What can be read as an integer. -/
def IsShort (n : Int) : Prop := -Int.ofNat (Nat.pow 2 63) ≤ n ∧ n < Int.ofNat (Nat.pow 2 64)

section Digits
variable {ds : List Char} (hn : ds ≠ []) (hd : ∀ c ∈ ds, c.isDigit = true)
  (hz : 1 < ds.length → ds.head? ≠ some '0') {r : List Char} (hr : Closes r)
include hn hd hz hr

/-- Digits that close are read to their end, with a sign and without. -/
theorem readNumber_digits :
    readNumber ('-' :: (ds ++ r)) = some (.number (ofNumber? true ds [] none),r) ∧
      readNumber (ds ++ r) = some (.number (ofNumber? false ds [] none),r) := by
  obtain ⟨htake,hdrop⟩ := readDigits hd hr
  have hw : (ds.isEmpty || (ds.head? == some '0' && decide (ds.length > 1))) = false := by
    by_cases hl : 1 < ds.length
    · simpa [hn] using fun h => absurd h (hz hl)
    · simp [hn,hl]
  constructor
  · simp only [readNumber,htake,hdrop,hw]
    cases r with
    | nil => rfl
    | cons c r => rcases hr c rfl with rfl | rfl | rfl <;> rfl
  · unfold readNumber
    split
    next negative rest he =>
      split at he
      · next hm =>
        obtain ⟨c,more,rfl⟩ := List.exists_cons_of_ne_nil hn
        cases hd '-' ((List.cons.inj hm).1 ▸ .head _)
      · obtain ⟨rfl,rfl⟩ := Prod.mk.inj he
        simp only [htake,hdrop,hw]
        cases r with
        | nil => rfl
        | cons c r => rcases hr c rfl with rfl | rfl | rfl <;> rfl

end Digits

theorem readNumber_toString {n : Int} (hn : IsShort n) {r : List Char} (hr : Closes r) :
    readNumber ((toString n).toList ++ r) = some (.number (some (.int n)),r) := by
  have hz : ∀ m, 1 < (Nat.toDigits 10 m).length → (Nat.toDigits 10 m).head? ≠ some '0' := by
    intro m hl
    refine head_toDigits fun h => ?_
    rw [h] at hl
    exact absurd hl (by decide)
  cases n with
  | ofNat m =>
    have hb : m < Nat.pow 2 64 := Int.ofNat_lt.mp hn.2
    rw [toList_ofNat,(readNumber_digits Nat.toDigits_ne_nil (isDigit_toDigits m) (hz m) hr).2]
    simp [ofNumber?,digitsValue_toDigits,hb]
  | negSucc m =>
    have hb : m + 1 ≤ Nat.pow 2 63 := by
      have hl := Int.neg_le_neg hn.1
      rw [Int.neg_neg,Int.neg_negSucc] at hl
      exact Int.ofNat_le.mp hl
    rw [toList_negSucc,List.cons_append,
      (readNumber_digits Nat.toDigits_ne_nil (isDigit_toDigits (m+1)) (hz (m+1)) hr).1]
    simp [ofNumber?,digitsValue_toDigits,hb,Int.negSucc_eq]

/-! Values. -/

/-- A text that is read as a value, whatever closes behind it. -/
structure Reads (text : List Char) (v : Written) : Prop where
  starts : ∃ c rest, text = c :: rest ∧ isSpace c = false ∧ c ≠ ']'
  read : ∀ fuel r, text.length < fuel → Closes r → readValue fuel (text ++ r) = some (v,r)

/-- What starts like a number is read as one. -/
theorem readValue_number (fuel : Nat) {c : Char} (hc : c = '-' ∨ c.isDigit = true) (r : List Char) :
    isSpace c = false ∧ c ≠ ']' ∧ readValue (fuel+1) (c :: r) = readNumber (c :: r) := by
  have hs : isSpace c = false := by
    rw [← Bool.not_eq_true]
    intro h
    simp only [isSpace,Bool.or_eq_true,decide_eq_true_eq] at h
    rcases h with ((rfl | rfl) | rfl) | rfl <;> exact absurd hc (by decide)
  have hn : skipSpace (c :: r) = c :: r := List.dropWhile_cons_of_neg (by simp [hs])
  refine ⟨hs,fun he => absurd (he ▸ hc) (by decide),?_⟩
  rw [readValue.eq_def]
  simp only [hn]
  split
  all_goals first
    | rfl
    | next he => exact absurd ((List.cons.inj he).1 ▸ hc) (by decide)

theorem exists_toString (n : Int) : ∃ c rest, (toString n).toList = c :: rest ∧
    (c = '-' ∨ c.isDigit = true) := by
  cases n with
  | ofNat m =>
    obtain ⟨c,rest,hc⟩ := List.exists_cons_of_ne_nil (Nat.toDigits_ne_nil (n := m) (b := 10))
    exact ⟨c,rest,(toList_ofNat m).trans hc,.inr (isDigit_toDigits m c (hc ▸ .head _))⟩
  | negSucc m => exact ⟨'-',_,toList_negSucc m,.inl rfl⟩

theorem reads_number {n : Int} (hn : IsShort n) :
    Reads (toString n).toList (.number (some (.int n))) := by
  obtain ⟨c,rest,ht,hc⟩ := exists_toString n
  obtain ⟨hs,hb,-⟩ := readValue_number 0 hc rest
  refine ⟨⟨c,rest,ht,hs,hb⟩,fun fuel r hf hr => ?_⟩
  obtain ⟨fuel,rfl⟩ := Nat.exists_eq_succ_of_ne_zero (Nat.ne_zero_of_lt hf)
  have hread := readNumber_toString hn hr
  rw [ht,List.cons_append] at hread ⊢
  rw [(readValue_number fuel hc _).2.2,hread]

/-- For what says itself where it ends, fuel and rest do not matter. -/
theorem reads_of_read {c : Char} {text : List Char} {v : Written} (hs : isSpace c = false)
    (hc : c ≠ ']') (h : ∀ fuel r, readValue (fuel+1) (c :: text ++ r) = some (v,r)) :
    Reads (c :: text) v := by
  refine ⟨⟨c,text,rfl,hs,hc⟩,fun fuel r hf _ => ?_⟩
  obtain ⟨fuel,rfl⟩ := Nat.exists_eq_succ_of_ne_zero (Nat.ne_zero_of_lt hf)
  exact h fuel r

theorem reads_quoted (s : String) : Reads (quoted s).toList (.text (some s)) := by
  have ht : (quoted s).toList = '"' :: (s.toList.flatMap escapeChar ++ ['"']) := by simp [quoted]
  rw [ht]
  refine reads_of_read rfl (by decide) fun fuel r => ?_
  have hv : ∀ x, readValue (fuel+1) ('"' :: x) = (readString [] x).map fun p => (.text p.1,p.2) :=
    fun _ => rfl
  rw [List.cons_append,hv,List.append_assoc,List.singleton_append,readString_quoted]
  rfl

theorem reads_null : Reads "null".toList .null := by
  change Reads ['n','u','l','l'] _
  exact reads_of_read rfl (by decide) fun _ _ => rfl

theorem reads_bool (b : Bool) : Reads (if b then "true" else "false").toList (.flag b) := by
  cases b with
  | true =>
    change Reads ['t','r','u','e'] _
    exact reads_of_read rfl (by decide) fun _ _ => rfl
  | false =>
    change Reads ['f','a','l','s','e'] _
    exact reads_of_read rfl (by decide) fun _ _ => rfl

/-! Lists and objects. -/

section Items
variable {fuel : Nat} {s r : List Char} {v : Written}

theorem readElements_comma (h : readValue fuel s = some (v,',' :: r)) (done : List Written) :
    readElements (fuel+1) done s = readElements fuel (v :: done) r := by
  simp [readElements,h,skipSpace,isSpace]

theorem readElements_close (h : readValue fuel s = some (v,']' :: r)) (done : List Written) :
    readElements (fuel+1) done s = some ((v :: done).reverse,r) := by
  simp [readElements,h,skipSpace,isSpace]

/-- The text of a member. -/
def memberText (key : String) (s : List Char) : List Char :=
  '"' :: (key.toList.flatMap escapeChar ++ '"' :: ':' :: s)

theorem readMembers_comma (h : readValue fuel s = some (v,',' :: r)) (key : String)
    (done : List (Option String × Written)) :
    readMembers (fuel+1) done (memberText key s) = readMembers fuel ((some key,v) :: done) r := by
  simp [readMembers,memberText,readString_quoted,h,skipSpace,isSpace]

theorem readMembers_close (h : readValue fuel s = some (v,'\x7d' :: r)) (key : String)
    (done : List (Option String × Written)) :
    readMembers (fuel+1) done (memberText key s) = some (((some key,v) :: done).reverse,r) := by
  simp [readMembers,memberText,readString_quoted,h,skipSpace,isSpace]

end Items

theorem readElements_of_reads {ts : List (List Char)} {vs : List Written}
    (h : List.Forall₂ Reads ts vs) (hn : ts ≠ []) {fuel : Nat} (done : List Written) (r : List Char)
    (hf : ([','].intercalate ts).length + 1 < fuel) :
    readElements fuel done ([','].intercalate ts ++ ']' :: r) = some (done.reverse ++ vs,r) := by
  induction h generalizing fuel done with
  | nil => exact absurd rfl hn
  | @cons t v ts vs ht hts ih =>
    obtain ⟨fuel,rfl⟩ := Nat.exists_eq_succ_of_ne_zero (Nat.ne_zero_of_lt hf)
    cases hts with
    | nil =>
      rw [List.intercalate_singleton] at hf ⊢
      rw [readElements_close (ht.read fuel _ (by omega) (closes_cons (by simp) r)),
        List.reverse_cons]
    | @cons u w us ws hu hus =>
      rw [List.intercalate_cons_cons] at hf ⊢
      simp only [List.length_append,List.length_singleton] at hf
      rw [List.append_assoc,List.append_assoc,List.singleton_append,
        readElements_comma (ht.read fuel _ (by omega) (closes_cons (by simp) _)),
        ih (List.cons_ne_nil _ _) (v :: done) (by omega)]
      simp

/-- A text that is read as a member. -/
def ReadsMember (text : List Char) (m : Option String × Written) : Prop :=
  ∃ key s, text = memberText key s ∧ m.1 = some key ∧ Reads s m.2

theorem readMembers_of_reads {ts : List (List Char)} {ms : List (Option String × Written)}
    (h : List.Forall₂ ReadsMember ts ms) (hn : ts ≠ []) {fuel : Nat}
    (done : List (Option String × Written)) (r : List Char)
    (hf : ([','].intercalate ts).length + 1 < fuel) :
    readMembers fuel done ([','].intercalate ts ++ '\x7d' :: r) = some (done.reverse ++ ms,r) := by
  induction h generalizing fuel done with
  | nil => exact absurd rfl hn
  | @cons t m ts ms ht hts ih =>
    obtain ⟨fuel,rfl⟩ := Nat.exists_eq_succ_of_ne_zero (Nat.ne_zero_of_lt hf)
    obtain ⟨key,s,rfl,hk,hs⟩ := ht
    obtain ⟨k,v⟩ := m
    obtain rfl : k = some key := hk
    have happ : ∀ x, memberText key s ++ x = memberText key (s ++ x) := fun x => by
      simp [memberText]
    have hl : s.length < (memberText key s).length := by
      simp [memberText]
      omega
    cases hts with
    | nil =>
      rw [List.intercalate_singleton] at hf ⊢
      rw [happ,readMembers_close (hs.read fuel _ (by omega) (closes_cons (by simp) r)),
        List.reverse_cons]
    | @cons u w us ws hu hus =>
      rw [List.intercalate_cons_cons] at hf ⊢
      simp only [List.length_append,List.length_singleton] at hf
      rw [List.append_assoc,List.append_assoc,List.singleton_append,happ,
        readMembers_comma (hs.read fuel _ (by omega) (closes_cons (by simp) _)),
        ih (List.cons_ne_nil _ _) _ (by omega)]
      simp

theorem readValue_list (fuel : Nat) {c : Char} (hs : isSpace c = false) (hc : c ≠ ']')
    (s : List Char) : readValue (fuel+1) ('[' :: c :: s) =
      (readElements fuel [] (c :: s)).map fun p => (.list p.1,p.2) := by
  have hb : isSpace '[' = false := by decide
  simp [readValue,skipSpace,hb,hs,hc]

theorem reads_list {ts : List (List Char)} {vs : List Written} (h : List.Forall₂ Reads ts vs) :
    Reads ('[' :: ([','].intercalate ts ++ [']'])) (.list vs) := by
  refine ⟨⟨_,_,rfl,rfl,by decide⟩,fun fuel r hf _ => ?_⟩
  obtain ⟨fuel,rfl⟩ := Nat.exists_eq_succ_of_ne_zero (Nat.ne_zero_of_lt hf)
  have hread := readElements_of_reads h
  cases h with
  | nil => rfl
  | @cons t v ts vs ht hts =>
    obtain ⟨c,rest,rfl,hs,hc⟩ := ht.starts
    obtain ⟨more,hm⟩ : ∃ more, [','].intercalate ((c :: rest) :: ts) = c :: more := by
      cases ts with
      | nil => exact ⟨rest,List.intercalate_singleton⟩
      | cons t ts => exact ⟨_,List.intercalate_cons_cons⟩
    rw [List.length_cons,List.length_append,List.length_singleton] at hf
    have hr := hread (List.cons_ne_nil _ _) [] r (Nat.lt_of_succ_lt_succ hf)
    rw [hm,List.cons_append] at hr
    rw [hm]
    simp only [List.cons_append,List.append_assoc,List.nil_append]
    rw [readValue_list fuel hs hc,hr]
    rfl

theorem reads_members {ts : List (List Char)} {ms : List (Option String × Written)}
    (h : List.Forall₂ ReadsMember ts ms) :
    Reads ('\x7b' :: ([','].intercalate ts ++ ['\x7d'])) (.members ms) := by
  refine ⟨⟨_,_,rfl,rfl,by decide⟩,fun fuel r hf _ => ?_⟩
  obtain ⟨fuel,rfl⟩ := Nat.exists_eq_succ_of_ne_zero (Nat.ne_zero_of_lt hf)
  have hread := readMembers_of_reads h
  cases h with
  | nil => rfl
  | @cons t m ts ms ht hts =>
    obtain ⟨key,s,rfl,-,-⟩ := ht
    obtain ⟨more,hm⟩ : ∃ more, [','].intercalate (memberText key s :: ts) = '"' :: more := by
      cases ts with
      | nil => exact ⟨_,List.intercalate_singleton⟩
      | cons t ts => exact ⟨_,List.intercalate_cons_cons⟩
    rw [List.length_cons,List.length_append,List.length_singleton] at hf
    have hr := hread (List.cons_ne_nil _ _) [] r (Nat.lt_of_succ_lt_succ hf)
    rw [hm,List.cons_append] at hr
    rw [hm]
    have hv : ∀ x, readValue (fuel+1) ('\x7b' :: '"' :: x) =
        (readMembers fuel [] ('"' :: x)).map fun p => (.members p.1,p.2) := fun _ => rfl
    simp only [List.cons_append,List.append_assoc,List.nil_append]
    rw [hv,hr]
    rfl

/-! Whole values. -/

mutual

/-- A value without decimals whose integers fit. -/
def IsPlain : Json → Prop
  | .int n => IsShort n
  | .decimal _ _ => False
  | .arr xs => ArePlain xs
  | .obj ms => ArePlainMembers ms
  | _ => True

def ArePlain : List Json → Prop
  | [] => True
  | x :: r => IsPlain x ∧ ArePlain r

def ArePlainMembers : List (String × Json) → Prop
  | [] => True
  | m :: r => IsPlain m.2 ∧ ArePlainMembers r

end

mutual

theorem reads_compact : ∀ j : Json, j.IsPlain → Reads j.compact.toList (.ofJson j)
  | .null, _ => reads_null
  | .bool b, _ => reads_bool b
  | .int _, h => reads_number h
  | .decimal _ _, h => h.elim
  | .str s, _ => reads_quoted s
  | .arr xs, h => by
    have hr := reads_list (reads_compactAll xs h)
    simpa [compact,commaSeparated,String.toList_intercalate,Written.ofJson] using hr
  | .obj ms, h => by
    have hr := reads_members (reads_compactMembers ms h)
    simpa [compact,commaSeparated,String.toList_intercalate,Written.ofJson] using hr

theorem reads_compactAll : ∀ xs : List Json, ArePlain xs →
    List.Forall₂ Reads ((compactAll xs).map String.toList) (Written.ofJsons xs)
  | [], _ => .nil
  | x :: rest, h => .cons (reads_compact x h.1) (reads_compactAll rest h.2)

theorem reads_compactMembers : ∀ ms : List (String × Json), ArePlainMembers ms →
    List.Forall₂ ReadsMember ((compactMembers ms).map String.toList) (Written.ofJsonMembers ms)
  | [], _ => .nil
  | (key,x) :: rest, h =>
    .cons ⟨key,x.compact.toList,by simp [quoted,memberText],rfl,reads_compact x h.1⟩
      (reads_compactMembers rest h.2)

end

/-- A plain value is read as it was written. -/
theorem parse?_compact {j : Json} (h : j.IsPlain) : Written.parse? j.compact = some (.ofJson j) := by
  have hl : j.compact.toList.length < j.compact.length + 1 := by
    rw [String.length_toList]
    omega
  have hr := (reads_compact j h).read _ [] hl (by simp [Closes])
  rw [List.append_nil] at hr
  simp [Written.parse?,hr,skipSpace]

end ImportResolution.Json
