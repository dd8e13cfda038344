import Clausal.Policy
import Mathlib.Data.List.DropRight
import Mathlib.Data.Nat.Digits.Defs

namespace Clausal

section Trimming

variable {text core : List Char}

/-- The text is the core with blanks around it. The core neither begins nor ends with a blank. -/
structure Trims (text core : List Char) : Prop where
  around : ∃ before after, text = before ++ (core ++ after) ∧
    (∀ c ∈ before, isBlank c = true) ∧ ∀ c ∈ after, isBlank c = true
  first : ∀ c, core.head? = some c → isBlank c = false
  last : ∀ c, core.getLast? = some c → isBlank c = false

theorem trims_trimBlanks (text : List Char) : Trims text (trimBlanks text) := by
  have hright : trimBlanks text = (text.dropWhile isBlank).rdropWhile isBlank := rfl
  rw [hright]
  refine ⟨⟨text.takeWhile isBlank, (text.dropWhile isBlank).rtakeWhile isBlank, ?_,
    fun c hc => List.mem_takeWhile_imp hc, fun c hc => List.mem_rtakeWhile_imp hc⟩, ?_, ?_⟩
  · rw [List.rdropWhile_append_rtakeWhile, List.takeWhile_append_dropWhile]
  · intro c hc
    obtain ⟨rest, hrest⟩ := List.rdropWhile_prefix isBlank (l := text.dropWhile isBlank)
    have hhead : (text.dropWhile isBlank).head? = some c := by
      rw [← hrest, List.head?_append, hc]
      rfl
    have hnot := List.head?_dropWhile_not isBlank text
    rw [hhead] at hnot
    exact hnot
  · intro c hc
    have hne : (text.dropWhile isBlank).rdropWhile isBlank ≠ [] := by
      intro he
      rw [he] at hc
      cases hc
    have hlast := List.rdropWhile_last_not isBlank (text.dropWhile isBlank) hne
    rw [List.getLast?_eq_getLast_of_ne_nil hne] at hc
    rw [← Option.some.inj hc]
    simpa using hlast

theorem dropWhile_append_blanks {blanks rest : List Char} (hb : ∀ c ∈ blanks, isBlank c = true)
    (hr : ∀ c, rest.head? = some c → isBlank c = false) :
    (blanks ++ rest).dropWhile isBlank = rest := by
  rw [List.dropWhile_append_of_pos hb]
  cases rest with
  | nil => rfl
  | cons c cs => exact List.dropWhile_cons_of_neg (by simp [hr c rfl])

theorem Trims.eq_trimBlanks (h : Trims text core) : core = trimBlanks text := by
  obtain ⟨before, after, rfl, hbefore, hafter⟩ := h.around
  unfold trimBlanks
  by_cases hcore : core = []
  · have hall : ∀ c ∈ before ++ after, isBlank c = true := by
      intro c hc
      exact (List.mem_append.mp hc).elim (hbefore c) (hafter c)
    have hnil : (before ++ after).dropWhile isBlank = [] := List.dropWhile_eq_nil_iff.mpr hall
    simp [hcore, hnil]
  · have hfirst : ∀ c, (core ++ after).head? = some c → isBlank c = false := by
      intro c hc
      rw [List.head?_append_of_ne_nil _ hcore] at hc
      exact h.first c hc
    have hlast : ∀ c, core.reverse.head? = some c → isBlank c = false := by
      intro c hc
      rw [List.head?_reverse] at hc
      exact h.last c hc
    rw [dropWhile_append_blanks hbefore hfirst, List.reverse_append,
      dropWhile_append_blanks (by simpa using hafter) hlast, List.reverse_reverse]

theorem trims_iff : Trims text core ↔ core = trimBlanks text :=
  ⟨Trims.eq_trimBlanks, fun h => h ▸ trims_trimBlanks text⟩

end Trimming

section Counting

variable {cs : List Char} {n : Nat}

/-- What a digit stands for. -/
def digit (c : Char) : Nat :=
  c.toNat - '0'.toNat

/-- The text is one or more ASCII digits, with a plus sign before them or not, and denotes the number
in base ten. -/
def Counts (cs : List Char) (n : Nat) : Prop :=
  ∃ digits, (cs = digits ∨ cs = '+' :: digits) ∧ digits ≠ [] ∧ (∀ c ∈ digits, c.isDigit = true) ∧
    n = Nat.ofDigits 10 (digits.reverse.map digit)

/-- Reading from the left accumulates what the digits denote by their places. -/
theorem foldl_eq_ofDigits (cs : List Char) :
    cs.foldl (fun n c => 10 * n + (c.toNat - '0'.toNat)) 0 =
      Nat.ofDigits 10 (cs.reverse.map digit) := by
  rw [Nat.ofDigits_eq_foldr, List.foldr_map, List.foldr_reverse]
  congr 1
  funext n c
  simp only [digit, Nat.cast_id]
  omega

theorem decimal?_eq_some_iff : decimal? cs = some n ↔
    cs ≠ [] ∧ (∀ c ∈ cs, c.isDigit = true) ∧ n = Nat.ofDigits 10 (cs.reverse.map digit) := by
  unfold decimal?
  rw [foldl_eq_ofDigits]
  split
  next h =>
    refine ⟨fun hn => absurd hn (by simp), fun ⟨hne, hall, _⟩ => ?_⟩
    rcases Bool.or_eq_true_iff.mp h with h | h
    · exact absurd (List.isEmpty_iff.mp h) hne
    · rw [List.all_eq_true.mpr hall] at h
      cases h
  next h =>
    have h : cs.isEmpty = false ∧ (!cs.all Char.isDigit) = false := by simpa using h
    have hne : cs ≠ [] := by
      rintro rfl
      cases h.1
    have hall : ∀ c ∈ cs, c.isDigit = true := by simpa using h.2
    exact ⟨fun hn => ⟨hne, hall, (Option.some.inj hn).symm⟩, fun hn => congrArg some hn.2.2.symm⟩

theorem ne_plus {digits : List Char} (h : ∀ c ∈ digits, c.isDigit = true) (rest : List Char) :
    digits ≠ '+' :: rest := by
  rintro rfl
  exact absurd (h '+' List.mem_cons_self) (by decide)

theorem count?_plus (rest : List Char) :
    count? ('+' :: rest) = (decimal? rest).filter (· ≤ wordMax) := by
  unfold count?
  cases h : decimal? rest <;> simp [h, Option.filter]

theorem count?_of_ne (h : ∀ rest, cs ≠ '+' :: rest) :
    count? cs = (decimal? cs).filter (· ≤ wordMax) := by
  unfold count?
  split
  next rest => exact absurd rfl (h rest)
  next => cases hd : decimal? cs <;> simp [hd, Option.filter]

theorem count?_eq_some_iff : count? cs = some n ↔ Counts cs n ∧ n ≤ wordMax := by
  by_cases hplus : ∃ rest, cs = '+' :: rest
  · obtain ⟨rest, rfl⟩ := hplus
    rw [count?_plus, Option.filter_eq_some_iff, decimal?_eq_some_iff, decide_eq_true_iff]
    refine and_congr_left fun _ => ⟨fun h => ⟨rest, .inr rfl, h⟩, ?_⟩
    rintro ⟨digits, rfl | hd, h⟩
    · exact absurd rfl (ne_plus h.2.1 rest)
    · obtain rfl := (List.cons.inj hd).2
      exact h
  · have hplus : ∀ rest, cs ≠ '+' :: rest := fun rest he => hplus ⟨rest, he⟩
    rw [count?_of_ne hplus, Option.filter_eq_some_iff, decimal?_eq_some_iff, decide_eq_true_iff]
    refine and_congr_left fun _ => ⟨fun h => ⟨cs, .inl rfl, h⟩, ?_⟩
    rintro ⟨digits, rfl | hd, h⟩
    · exact h
    · exact absurd hd (hplus digits)

/-- A text denotes at most one number. -/
theorem Counts.unique {m : Nat} (h : Counts cs m) (h' : Counts cs n) : m = n := by
  obtain ⟨digits, hcs, hne, hall, rfl⟩ := h
  obtain ⟨digits', hcs', hne', hall', rfl⟩ := h'
  rcases hcs with rfl | rfl
  · rcases hcs' with rfl | he
    · rfl
    · exact absurd he (ne_plus hall _)
  · rcases hcs' with he | he
    · exact absurd he.symm (ne_plus hall' _)
    · rw [(List.cons.inj he).2]

end Counting

section Spelling

variable {c l : Char} {cs word : List Char}

/-- A character is a given one, or the ASCII capital of it. -/
def SameLetter (c l : Char) : Prop :=
  c = l ∨ 65 ≤ c.toNat ∧ c.toNat ≤ 90 ∧ l.toNat = c.toNat + 32

/-- The text is the word, with each of its letters in either ASCII case. -/
def Writes (cs word : List Char) : Prop :=
  List.Forall₂ SameLetter cs word

theorem writes_cons : Writes (c :: cs) (l :: word) ↔ SameLetter c l ∧ Writes cs word :=
  List.forall₂_cons

/-- An ASCII character that is no capital, and that no character beyond ASCII has for its lower-case
form. -/
def Plain (l : Char) : Prop :=
  0 < l.toNat ∧ l.toNat < 128 ∧ ¬(65 ≤ l.toNat ∧ l.toNat ≤ 90) ∧ l ≠ 'k'

instance : DecidablePred Plain := fun _ =>
  inferInstanceAs (Decidable (_ ∧ _ ∧ _ ∧ _))

theorem plain_of_all (h : word.all (fun l => decide (Plain l)) = true) : ∀ l ∈ word, Plain l :=
  fun l hl => of_decide_eq_true (List.all_eq_true.mp h l hl)

theorem toNat_inj (h : c.toNat = l.toNat) : c = l :=
  Char.ext (UInt32.toNat.inj h)

theorem toLower_cases (c : Char) :
    (65 ≤ c.toNat ∧ c.toNat ≤ 90 ∧ c.toLower.toNat = c.toNat + 32) ∨
      ¬(65 ≤ c.toNat ∧ c.toNat ≤ 90) ∧ c.toLower = c := by
  have hrange : (c.val ≥ 'A'.val ∧ c.val ≤ 'Z'.val) ↔ 65 ≤ c.toNat ∧ c.toNat ≤ 90 := Iff.rfl
  unfold Char.toLower
  split
  next h =>
    obtain ⟨hlow, hhigh⟩ := hrange.mp h
    refine .inl ⟨hlow, hhigh, ?_⟩
    have hval : (c.val + ('a'.val - 'A'.val)).toNat = (c.toNat + 32) % 2 ^ 32 := UInt32.toNat_add _ _
    exact hval.trans (Nat.mod_eq_of_lt (by omega))
  next h => exact .inr ⟨fun hc => h (hrange.mpr hc), rfl⟩

theorem toLower_eq_iff (hl : Plain l) : c.toLower = l ↔ SameLetter c l := by
  rcases toLower_cases c with ⟨hlow, hhigh, hval⟩ | ⟨hnot, hsame⟩
  · constructor
    · rintro rfl
      exact .inr ⟨hlow, hhigh, hval⟩
    · rintro (rfl | ⟨_, _, hl'⟩)
      · exact absurd ⟨hlow, hhigh⟩ hl.2.2.1
      · exact toNat_inj (hval.trans hl'.symm)
  · rw [hsame]
    constructor
    · exact .inl
    · rintro (rfl | ⟨hlow, hhigh, _⟩)
      · rfl
      · exact absurd ⟨hlow, hhigh⟩ hnot

theorem lowerChar_of_ascii (h : c.toNat < 128) : lowerChar c = [c.toLower] := by
  have hall : ∀ n < 128, lowerChar (Char.ofNat n) = [(Char.ofNat n).toLower] := by decide +kernel
  have hc := hall c.toNat h
  rwa [Char.ofNat_toNat] at hc

theorem toNat_ofNat_cases (n : Nat) : (Char.ofNat n).toNat = n ∨ (Char.ofNat n).toNat = 0 := by
  by_cases h : n.isValidChar
  · refine .inl ?_
    rw [Char.ofNat, dif_pos h]
    rfl
  · refine .inr ?_
    rw [Char.ofNat, dif_neg h]
    rfl

/-- Of the letters beyond ASCII only the Kelvin sign has an ASCII lower-case form. -/
theorem caseRuns_beyond_ascii : ∀ r ∈ caseRuns,
    r.last < 128 ∨ (r.first = r.last ∧ r.first + r.shift = 107) ∨ 128 ≤ r.first + r.shift := by
  decide +kernel

theorem lowerChar_beyond_ascii (h : 128 ≤ c.toNat) (hc : c ≠ 'İ') :
    ∃ x, lowerChar c = [x] ∧ ¬Plain x := by
  unfold lowerChar
  rw [if_neg hc]
  split
  next r hr =>
    refine ⟨_, rfl, ?_⟩
    have hhas : r.has c = true := List.find?_some (p := fun r : CaseRun => r.has c) hr
    simp only [CaseRun.has, Bool.and_eq_true, decide_eq_true_eq] at hhas
    obtain ⟨⟨hfirst, hlast⟩, _⟩ := hhas
    rintro ⟨hpos, hascii, _, hk⟩
    rcases toNat_ofNat_cases (c.toNat + r.shift).toNat with hval | hval
    · rcases caseRuns_beyond_ascii r (List.mem_of_find?_eq_some hr) with h' | ⟨hone, hkelvin⟩ | h'
      · omega
      · have hseven : (c.toNat + r.shift).toNat = 107 := by omega
        rw [hseven] at hk
        exact hk rfl
      · omega
    · omega
  next => exact ⟨c, rfl, fun hplain => absurd hplain.2.1 (by omega)⟩

/-- The lower-case form of the character at some place of a text is a single character, which is a
plain one only if the character is that or its capital. The dotted capital i alone has two. -/
theorem lowered_cases (before rest : List Char) (c : Char) :
    (∃ x, lowerFrom before (c :: rest) = x :: lowerFrom (c :: before) rest ∧
      ∀ l, Plain l → (x = l ↔ SameLetter c l)) ∨
    c = 'İ' ∧ lowerFrom before (c :: rest) = 'i' :: '\u0307' :: lowerFrom (c :: before) rest := by
  have beyond : 128 ≤ c.toNat → ∀ l, Plain l → ¬SameLetter c l := by
    rintro hc l hl (rfl | ⟨_, hhigh, _⟩)
    · exact absurd hl.2.1 (by omega)
    · omega
  have single : ∀ x, 128 ≤ c.toNat → ¬Plain x → ∀ l, Plain l → (x = l ↔ SameLetter c l) := by
    intro x hc hx l hl
    exact ⟨fun he => absurd (he ▸ hl) hx, fun hs => absurd hs (beyond hc l hl)⟩
  by_cases hsigma : c = 'Σ'
  · subst hsigma
    refine .inl ⟨if nearestIsCased before && !nearestIsCased rest then 'ς' else 'σ', ?_, ?_⟩
    · simp only [lowerFrom, if_true]
      cases nearestIsCased before && !nearestIsCased rest <;> rfl
    · exact single _ (by decide) (by split <;> decide)
  · have hchar : lowerFrom before (c :: rest) = lowerChar c ++ lowerFrom (c :: before) rest := by
      rw [lowerFrom]
      simp only [if_neg hsigma]
    by_cases hi : c = 'İ'
    · exact .inr ⟨hi, by rw [hchar, hi]; rfl⟩
    by_cases hascii : c.toNat < 128
    · refine .inl ⟨c.toLower, ?_, fun l hl => toLower_eq_iff hl⟩
      rw [hchar, lowerChar_of_ascii hascii]
      rfl
    · obtain ⟨x, hx, hplain⟩ := lowerChar_beyond_ascii (not_lt.mp hascii) hi
      exact .inl ⟨x, by rw [hchar, hx]; rfl, single x (not_lt.mp hascii) hplain⟩

theorem lowerFrom_eq_iff (hw : ∀ l ∈ word, Plain l) (before : List Char) :
    lowerFrom before cs = word ↔ Writes cs word := by
  induction cs generalizing before word with
  | nil =>
    cases word with
    | nil => exact ⟨fun _ => .nil, fun _ => rfl⟩
    | cons l word => exact ⟨nofun, nofun⟩
  | cons c cs ih =>
    rcases lowered_cases before cs c with ⟨x, hx, hsame⟩ | ⟨rfl, hx⟩
    · rw [hx]
      cases word with
      | nil => exact ⟨nofun, nofun⟩
      | cons l word =>
        have hl := hw l List.mem_cons_self
        have htail := ih (fun l' hl' => hw l' (List.mem_cons_of_mem l hl')) (c :: before)
        rw [List.cons.injEq, hsame l hl, htail, writes_cons]
    · rw [hx]
      constructor
      · rintro rfl
        exact absurd (hw '\u0307' (by simp)) (by decide)
      · rintro (_ | ⟨rfl | ⟨_, hhigh, _⟩, _⟩)
        · exact absurd (hw 'İ' List.mem_cons_self) (by decide)
        · exact absurd hhigh (by decide)

theorem map_toLower_eq_iff (hw : ∀ l ∈ word, Plain l) :
    cs.map Char.toLower = word ↔ Writes cs word := by
  induction cs generalizing word with
  | nil =>
    cases word with
    | nil => exact ⟨fun _ => .nil, fun _ => rfl⟩
    | cons l word => exact ⟨nofun, nofun⟩
  | cons c cs ih =>
    cases word with
    | nil => exact ⟨nofun, nofun⟩
    | cons l word =>
      have hl := hw l List.mem_cons_self
      have htail := ih fun l' hl' => hw l' (List.mem_cons_of_mem l hl')
      rw [List.map_cons, List.cons.injEq, toLower_eq_iff hl, htail, writes_cons]

end Spelling

/-- The text lifts the depth bound: it is the word none or a zero, with blanks around it. -/
def Unbounds (text : String) : Prop :=
  ∃ core, Trims text.toList core ∧ (Writes core ['n', 'o', 'n', 'e'] ∨ Counts core 0)

/-- The text is a depth bound: a positive number that fits a 64-bit word, with blanks around it. -/
def Bounds (text : String) (n : Nat) : Prop :=
  ∃ core, Trims text.toList core ∧ Counts core n ∧ 1 ≤ n ∧ n ≤ 2 ^ 64 - 1

/-- The text is a name of the tie-break, with blanks around it. -/
def TieBreak.NamedBy (text : String) : TieBreak → Prop
  | strict => ∃ core, Trims text.toList core ∧ Writes core "strict".toList
  | mostSpecific => ∃ core, Trims text.toList core ∧
      (Writes core "most_specific".toList ∨ Writes core "most-specific".toList)

section Reading

variable {text : String} {n : Nat} {core : List Char} {t : TieBreak}

theorem exists_trims_iff {P : List Char → Prop} :
    (∃ core, Trims text.toList core ∧ P core) ↔ P (trimBlanks text.toList) := by
  constructor
  · rintro ⟨core, htrims, hp⟩
    exact trims_iff.mp htrims ▸ hp
  · exact fun hp => ⟨_, trims_trimBlanks _, hp⟩

/-- The word none is not a number. -/
theorem not_counts_of_writes (h : Writes core ['n', 'o', 'n', 'e']) : ¬Counts core n := by
  rintro ⟨digits, hcore, hne, hall, _⟩
  obtain ⟨c, hc⟩ := List.exists_mem_of_ne_nil digits hne
  have hmem : c ∈ core := by
    rcases hcore with rfl | rfl
    · exact hc
    · exact List.mem_cons_of_mem _ hc
  have hdigit : c.toNat ≤ 57 := by
    have hc := hall c hc
    simp only [Char.isDigit, Bool.and_eq_true, decide_eq_true_eq] at hc
    exact hc.2
  have hsame : c.toLower = c := by
    rcases toLower_cases c with ⟨hlow, _, _⟩ | ⟨_, hsame⟩
    · omega
    · exact hsame
  have hword : core.map Char.toLower = ['n', 'o', 'n', 'e'] :=
    (map_toLower_eq_iff (plain_of_all (by decide))).mpr h
  have hletter : c ∈ ['n', 'o', 'n', 'e'] := by
    rw [← hword, ← hsame]
    exact List.mem_map_of_mem hmem
  have hletters : ['n', 'o', 'n', 'e'].all (fun l => decide (57 < l.toNat)) = true := by decide
  have hlarge : 57 < c.toNat := of_decide_eq_true (List.all_eq_true.mp hletters c hletter)
  omega

theorem parseDepth?_of_writes (h : Writes (trimBlanks text.toList) ['n', 'o', 'n', 'e']) :
    Policy.parseDepth? text = some none := by
  unfold Policy.parseDepth?
  exact if_pos ((map_toLower_eq_iff (plain_of_all (by decide))).mpr h)

theorem parseDepth?_of_not_writes
    (h : ¬Writes (trimBlanks text.toList) ['n', 'o', 'n', 'e']) :
    Policy.parseDepth? text =
      (count? (trimBlanks text.toList)).map fun n => if n = 0 then none else some n := by
  unfold Policy.parseDepth?
  dsimp only
  rw [if_neg fun hw => h ((map_toLower_eq_iff (plain_of_all (by decide))).mp hw)]
  split
  next hc => simp [hc]
  next hc => simp [hc]
  next hc => simp [hc]

theorem parseDepth?_eq_none_iff : Policy.parseDepth? text = some none ↔ Unbounds text := by
  rw [Unbounds, exists_trims_iff]
  by_cases h : Writes (trimBlanks text.toList) ['n', 'o', 'n', 'e']
  · simp [parseDepth?_of_writes h, h]
  · simp [parseDepth?_of_not_writes h, h, count?_eq_some_iff]

theorem parseDepth?_eq_some_iff : Policy.parseDepth? text = some (some n) ↔ Bounds text n := by
  have hword : wordMax = 2 ^ 64 - 1 := rfl
  rw [Bounds, exists_trims_iff (P := fun core => Counts core n ∧ 1 ≤ n ∧ n ≤ 2 ^ 64 - 1), ← hword]
  by_cases h : Writes (trimBlanks text.toList) ['n', 'o', 'n', 'e']
  · simp [parseDepth?_of_writes h, not_counts_of_writes h]
  · rw [parseDepth?_of_not_writes h, Option.map_eq_some_iff]
    constructor
    · rintro ⟨m, hm, he⟩
      obtain ⟨hcounts, hle⟩ := count?_eq_some_iff.mp hm
      split at he
      next => cases he
      next hne =>
        cases he
        exact ⟨hcounts, Nat.pos_of_ne_zero hne, hle⟩
    · rintro ⟨hcounts, hpos, hle⟩
      exact ⟨n, count?_eq_some_iff.mpr ⟨hcounts, hle⟩, if_neg (by omega)⟩

/-- A number that a 64-bit word does not hold is no depth bound. -/
theorem parseDepth?_of_large (ht : Trims text.toList core) (hn : Counts core n)
    (hlarge : 2 ^ 64 ≤ n) : Policy.parseDepth? text = none := by
  obtain rfl := ht.eq_trimBlanks
  rw [parseDepth?_of_not_writes fun hw => not_counts_of_writes hw hn, Option.map_eq_none_iff,
    Option.eq_none_iff_forall_ne_some]
  intro m hm
  have hword : wordMax = 2 ^ 64 - 1 := rfl
  obtain ⟨hcounts, hle⟩ := count?_eq_some_iff.mp hm
  have hsame := hn.unique hcounts
  omega

theorem parseDepth?_eq_none (h : ¬Unbounds text ∧ ∀ n, ¬Bounds text n) :
    Policy.parseDepth? text = none := by
  rw [Option.eq_none_iff_forall_ne_some]
  rintro (_ | n) hd
  · exact h.1 (parseDepth?_eq_none_iff.mp hd)
  · exact h.2 n (parseDepth?_eq_some_iff.mp hd)

theorem TieBreak.parse_eq_ok_iff : TieBreak.parse text = .ok t ↔ t.NamedBy text := by
  have key : ∀ word : List Char, (∀ l ∈ word, Plain l) →
      (String.ofList (lowercase (trimBlanks text.toList)) = String.ofList word ↔
        Writes (trimBlanks text.toList) word) := by
    intro word hw
    rw [String.ofList_inj]
    exact lowerFrom_eq_iff hw []
  have hstrict := key "strict".toList (plain_of_all (by decide))
  have hunder := key "most_specific".toList (plain_of_all (by decide))
  have hhyphen := key "most-specific".toList (plain_of_all (by decide))
  rw [String.ofList_toList] at hstrict hunder hhyphen
  unfold parse
  dsimp only
  cases t with
  | strict =>
    rw [NamedBy, exists_trims_iff, ← hstrict]
    split
    next h => simp [h]
    next h => split <;> simp [h]
  | mostSpecific =>
    rw [NamedBy, exists_trims_iff
      (P := fun core => Writes core "most_specific".toList ∨ Writes core "most-specific".toList),
      ← hunder, ← hhyphen]
    split
    next h => simp [h]
    next h =>
      rw [← Bool.or_eq_true_iff.trans (or_congr decide_eq_true_iff decide_eq_true_iff)]
      split
      next ho => simp [ho]
      next ho => simp [ho]

theorem forall_getD_iff {ι α : Type} {f : ι → α} (hf : ∀ a, ∃ i, f i ≠ a) {o : Option α} {a : α} :
    (∀ i, o.getD (f i) = a) ↔ o = some a := by
  cases o with
  | none =>
    obtain ⟨i, hi⟩ := hf a
    exact ⟨fun h => absurd (h i) hi, nofun⟩
  | some b =>
    obtain ⟨i, _⟩ := hf a
    exact ⟨fun h => congrArg some (h i), fun h _ => Option.some.inj h⟩

theorem toOption_parse_eq_some_iff : (TieBreak.parse text).toOption = some t ↔ t.NamedBy text := by
  rw [← TieBreak.parse_eq_ok_iff]
  cases TieBreak.parse text <;> simp [Except.toOption]

theorem override_tieBreak (base : Policy) (depth tie : Option String) :
    (base.override depth tie).tieBreak =
      (tie.bind fun s => (TieBreak.parse s).toOption).getD base.tieBreak := by
  unfold Policy.override
  cases tie with
  | none => rfl
  | some s => cases h : TieBreak.parse s <;> simp [h, Except.toOption]

theorem override_maxDepth_of_unread {depth : Option String}
    (h : ∀ text, depth = some text → Policy.parseDepth? text = none) (base : Policy)
    (tie : Option String) : (base.override depth tie).maxDepth = base.maxDepth := by
  have hnone : depth.bind Policy.parseDepth? = none := Option.bind_eq_none_iff.mpr h
  show (depth.bind Policy.parseDepth?).getD base.maxDepth = base.maxDepth
  rw [hnone]
  rfl

end Reading

/-- A text overrides the field that it is for exactly when it can be read, whatever the other text
is. A depth bound is the word none or a decimal number with blanks around it, and zero lifts the
bound; what a 64-bit word cannot hold is passed over, as is all else. -/
theorem override_exact (depth tie : Option String) :
    ((∀ base : Policy, (base.override depth tie).maxDepth = none) ↔
      ∃ text, depth = some text ∧ Unbounds text) ∧
    (∀ n, (∀ base : Policy, (base.override depth tie).maxDepth = some n) ↔
      ∃ text, depth = some text ∧ Bounds text n) ∧
    ((∀ text, depth = some text → ¬Unbounds text ∧ ∀ n, ¬Bounds text n) →
      ∀ base : Policy, (base.override depth tie).maxDepth = base.maxDepth) ∧
    (∀ text core n, depth = some text → Trims text.toList core → Counts core n → 2 ^ 64 ≤ n →
      ∀ base : Policy, (base.override depth tie).maxDepth = base.maxDepth) ∧
    (∀ t, (∀ base : Policy, (base.override depth tie).tieBreak = t) ↔
      ∃ text, tie = some text ∧ t.NamedBy text) ∧
    ((∀ text, tie = some text → ∀ t : TieBreak, ¬t.NamedBy text) →
      ∀ base : Policy, (base.override depth tie).tieBreak = base.tieBreak) ∧
    ∀ (base : Policy) (depth' tie' : Option String),
      (base.override depth tie').maxDepth = (base.override depth tie).maxDepth ∧
      (base.override depth' tie).tieBreak = (base.override depth tie).tieBreak := by
  have hdepth : ∀ d : Option Nat, (∀ base : Policy, (base.override depth tie).maxDepth = d) ↔
      ∃ text, depth = some text ∧ Policy.parseDepth? text = some d := by
    intro d
    rw [← Option.bind_eq_some_iff]
    refine forall_getD_iff (f := Policy.maxDepth) fun d => ?_
    cases d with
    | none => exact ⟨⟨some 0, .strict⟩, nofun⟩
    | some n => exact ⟨⟨none, .strict⟩, nofun⟩
  refine ⟨?_, ?_, fun h base => ?_, fun text core n htext htrims hcounts hlarge base => ?_,
    fun t => ?_, fun h base => ?_, fun base depth' tie' => ⟨rfl, rfl⟩⟩
  · simp only [hdepth, parseDepth?_eq_none_iff]
  · simp only [hdepth, parseDepth?_eq_some_iff, implies_true]
  · exact override_maxDepth_of_unread (fun text ht => parseDepth?_eq_none (h text ht)) base tie
  · refine override_maxDepth_of_unread (fun text' ht => ?_) base tie
    obtain rfl := Option.some.inj (htext.symm.trans ht)
    exact parseDepth?_of_large htrims hcounts hlarge
  · simp only [override_tieBreak]
    rw [forall_getD_iff (f := Policy.tieBreak), Option.bind_eq_some_iff]
    · simp only [toOption_parse_eq_some_iff]
    · intro t
      cases t with
      | strict => exact ⟨⟨none, .mostSpecific⟩, nofun⟩
      | mostSpecific => exact ⟨⟨none, .strict⟩, nofun⟩
  · have hnone : (tie.bind fun s => (TieBreak.parse s).toOption) = none := by
      refine Option.bind_eq_none_iff.mpr fun text htext => ?_
      rw [Option.eq_none_iff_forall_ne_some]
      exact fun t ht => h text htext t (toOption_parse_eq_some_iff.mp ht)
    rw [override_tieBreak, hnone]
    rfl

end Clausal
