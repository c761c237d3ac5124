import CaseUpdate.Proofs.Entity.Regrouping

namespace CaseUpdate

/-- Two ways to write elements out agree on a list only if they agree on its elements, provided that
one of them never writes more than the other. -/
theorem flatMap_eq_iff_of_length_le {α β : Type} {f g : α → List β} {s : List α}
    (h : ∀ a ∈ s, (f a).length ≤ (g a).length) :
    s.flatMap f = s.flatMap g ↔ ∀ a ∈ s, f a = g a := by
  constructor
  · intro heq
    -- What both write for the rest cannot make up for a first element written at greater length.
    induction s with
    | nil => simp
    | cons a s ih =>
      rw [List.forall_mem_cons] at h
      rw [List.flatMap_cons, List.flatMap_cons] at heq
      have hlength := congrArg List.length heq
      have hrest : (s.flatMap f).length ≤ (s.flatMap g).length := by
        rw [List.length_flatMap, List.length_flatMap]
        exact List.sum_le_sum h.2
      rw [List.length_append, List.length_append] at hlength
      obtain ⟨ha, hs⟩ := List.append_inj heq (by omega)
      rw [List.forall_mem_cons]
      exact ⟨ha, ih h.2 hs⟩
  · exact List.flatMap_congr

namespace Text

theorem toLower_of_not_isUppercase {c : Char} (h : isUppercase c = false) : c.toLower = c := by
  apply Char.toLower_eq_of_not_isUpper
  intro hupper
  rw [isUppercase_of_isUpper hupper] at h
  cases h

/-- The capitals that are left when A to Z are lowered. -/
theorem isUppercase_toLower {c : Char} : isUppercase c.toLower = (isUppercase c && !c.isUpper) := by
  by_cases h : c.isUpper
  · simp [isUppercase_toLower_of_isUpper h, h]
  · simp [Char.toLower_eq_of_not_isUpper h, h]

end Text

namespace Entity

open Text (isUppercase)

/-- A name in which each capital is written in lower case, as given, with an underscore before it
unless it comes first, and every other character as it stands. -/
def snakedWith (low : Char → List Char) (s : List Char) : List Char :=
  s.zipIdx.flatMap fun (c, i) =>
    if isUppercase c then (if i = 0 then [] else ['_']) ++ low c else [c]

/-- Two ways to lower capitals make one name only if they agree on its capitals. -/
theorem snakedWith_eq_iff {f g : Char → List Char} {s : List Char}
    (h : ∀ c, (f c).length ≤ (g c).length) :
    snakedWith f s = snakedWith g s ↔ ∀ c ∈ s, isUppercase c → f c = g c := by
  unfold snakedWith
  rw [flatMap_eq_iff_of_length_le]
  · constructor
    · intro heq c hc hupper
      obtain ⟨i, hi⟩ := List.mem_iff_getElem?.mp hc
      have hpiece := heq (c, i) (List.mk_mem_zipIdx_iff_getElem?.mpr hi)
      simpa [hupper] using hpiece
    · rintro heq ⟨c, i⟩ hc
      have hlow := heq c (List.fst_mem_of_mem_zipIdx hc)
      dsimp only
      split_ifs with hupper
      · rw [hlow hupper]
      · rw [hlow hupper]
      · rfl
  · rintro ⟨c, i⟩ -
    dsimp only
    split_ifs
    · simpa using h c
    · simpa using h c
    · exact le_rfl

/-- What a character after the first is written as. -/
def snaked (c : Char) : List Char := if isUppercase c then ['_', c.toLower] else [c]

theorem lower_eq (c : Char) : snakeChars.lower c = c.toLower := by
  rw [snakeChars.lower]
  split_ifs with h
  · rfl
  · exact (Text.toLower_of_not_isUppercase (by simpa using h)).symm

theorem snakeChars_cons (c : Char) (s : List Char) :
    snakeChars (c :: s) = c.toLower :: s.flatMap snaked := by
  simp only [snakeChars, lower_eq]
  rfl

/-- Only A to Z are lowered, wherever underscores are put. -/
theorem snakeChars_eq (s : List Char) : snakeChars s = snakedWith (fun c => [c.toLower]) s := by
  cases s with
  | nil => rfl
  | cons c s =>
    have hfirst : [c.toLower] = if isUppercase c then [] ++ [c.toLower] else [c] := by
      cases h : isUppercase c with
      | true => rfl
      | false => simp [Text.toLower_of_not_isUppercase h]
    have hrest : s.flatMap snaked = (s.zipIdx 1).flatMap fun p => snaked p.1 := by
      conv_lhs => rw [← List.zipIdx_map_fst 1 s, List.flatMap_map]
    rw [snakeChars_cons, hrest, snakedWith, List.zipIdx_cons, List.flatMap_cons,
      ← List.singleton_append, hfirst]
    congr 1
    -- Behind the first character no position is 0, so that every capital gets its underscore.
    apply List.flatMap_congr
    rintro ⟨d, i⟩ hd
    have hi : i ≠ 0 := by
      have hle := List.le_snd_of_mem_zipIdx hd
      omega
    simp [snaked, hi]

/-- A name stays as it is if its first character is none of A to Z and no other is a capital. -/
theorem snakeChars_cons_eq_self_iff {c : Char} {s : List Char} :
    snakeChars (c :: s) = c :: s ↔ c.isUpper = false ∧ ∀ d ∈ s, isUppercase d = false := by
  have hfirst : c.toLower = c ↔ c.isUpper = false := by
    constructor
    · intro h
      rw [← h]
      exact c.isUpper_toLower_eq_false
    · intro h
      exact Char.toLower_eq_of_not_isUpper (by simp [h])
  have hkept (d : Char) : [d] = snaked d ↔ isUppercase d = false := by
    unfold snaked
    split_ifs with h <;> simp [h]
  have hlength (d : Char) : ([d] : List Char).length ≤ (snaked d).length := by
    unfold snaked
    split_ifs <;> simp
  have hrest : s.flatMap snaked = s ↔ ∀ d ∈ s, isUppercase d = false := by
    have hsame := flatMap_eq_iff_of_length_le (s := s) fun d _ => hlength d
    rw [List.flatMap_singleton'] at hsame
    rw [eq_comm, hsame]
    simp only [hkept]
  rw [snakeChars_cons, List.cons.injEq, hfirst, hrest]

theorem isUppercase_snaked_iff {c : Char} :
    (∀ d ∈ snaked c, isUppercase d = false) ↔ (isUppercase c → c.isUpper) := by
  have hunderscore : isUppercase '_' = false := by decide +kernel
  unfold snaked
  split_ifs with h
  · simp [hunderscore, h, Text.isUppercase_toLower]
  · simp [h]

/-- Of the capitals those beyond A to Z stay capitals. -/
theorem forall_snakeChars_iff {s : List Char} :
    (∀ c ∈ snakeChars s, isUppercase c = false) ↔ ∀ c ∈ s, isUppercase c → c.isUpper := by
  cases s with
  | nil => simp [snakeChars]
  | cons c s =>
    have hfirst : isUppercase c.toLower = false ↔ (isUppercase c → c.isUpper) := by
      simp [Text.isUppercase_toLower]
    have hrest : (∀ d ∈ s.flatMap snaked, isUppercase d = false) ↔
        ∀ d ∈ s, isUppercase d → d.isUpper := by
      simp only [List.forall_mem_flatMap, isUppercase_snaked_iff]
    rw [snakeChars_cons, List.forall_mem_cons, List.forall_mem_cons, hfirst, hrest]

/-- Made anew, a name gets another underscore before each capital that is left behind its first
character. -/
theorem snakeChars_snakeChars_iff {s : List Char} :
    snakeChars (snakeChars s) = snakeChars s ↔ ∀ c ∈ s.tail, isUppercase c → c.isUpper := by
  cases s with
  | nil => simp [snakeChars]
  | cons c s =>
    rw [snakeChars_cons, snakeChars_cons_eq_self_iff, List.tail_cons]
    simp only [c.isUpper_toLower_eq_false, true_and, List.forall_mem_flatMap,
      isUppercase_snaked_iff]

namespace Declaration

/-- The name that is made of another has every capital in lower case, with an underscore before it
unless it comes first, and the other characters between them as they were, exactly if each capital is
one of A to Z or has no lower-case form but itself. It has no capitals exactly if the other has only
those of A to Z, and it stays as it is when made anew exactly if the other has only those behind its
first character. It is the table of every declaration that names none. -/
theorem snakeCase_is_stable_iff (name : String) (low : Char → List Char)
    (hlow : ∀ c, low c ≠ []) (hletters : ∀ c, c.isUpper → low c = [c.toLower]) :
    (snakeCase name = String.ofList (snakedWith low name.toList) ↔
      ∀ c ∈ name.toList, isUppercase c → c.isUpper ∨ low c = [c]) ∧
    ((∀ c ∈ (snakeCase name).toList, isUppercase c = false) ↔
      ∀ c ∈ name.toList, isUppercase c → c.isUpper) ∧
    (snakeCase (snakeCase name) = snakeCase name ↔
      ∀ c ∈ name.toList.tail, isUppercase c → c.isUpper) ∧
    ∀ (d : Declaration) (m : Declared), d.name = name → d.model = .ok m →
      hasKey "table" d.settings = false → m.table = snakeCase name := by
  have hchars : (snakeCase name).toList = snakeChars name.toList := String.toList_ofList
  refine ⟨?_, ?_, ?_, ?_⟩
  · have hlength (c : Char) : ([c.toLower] : List Char).length ≤ (low c).length :=
      List.length_pos_of_ne_nil (hlow c)
    have hcapital (c : Char) : [c.toLower] = low c ↔ c.isUpper ∨ low c = [c] := by
      by_cases h : c.isUpper
      · simp [h, hletters c h]
      · simp [h, Char.toLower_eq_of_not_isUpper h, eq_comm]
    rw [snakeCase, String.ofList_inj, snakeChars_eq, snakedWith_eq_iff hlength]
    simp only [hcapital]
  · rw [hchars]
    exact forall_snakeChars_iff
  · rw [snakeCase, hchars, snakeCase, String.ofList_inj]
    exact snakeChars_snakeChars_iff
  · rintro d m rfl hmodel hkey
    obtain ⟨-, rfl⟩ := model_eq_ok_iff.mp hmodel
    rw [metadata, lastText_of_not_hasKey hkey, Option.getD_none]

/-- Capitals of A to Z beside a small letter beyond them. -/
theorem snakeCase_is_stable_iff_of_letters :
    let d : Declaration := ⟨"CaféPostV2", .record, [⟨"model", some [⟨"timestamps", none⟩]⟩], []⟩
    let m : Declared := ⟨"café_post_v2", "id", ["updated_at"], [], some "updated_at", none⟩
    snakeCase d.name = String.ofList (snakedWith (fun c => [c.toLower]) d.name.toList) ∧
    (∀ c ∈ (snakeCase d.name).toList, isUppercase c = false) ∧
    snakeCase (snakeCase d.name) = snakeCase d.name ∧
    d.model = .ok m ∧ m.table = snakeCase d.name := by
  intro d m
  have hmodel : d.model = .ok m := by decide +kernel
  have hall : d.name.toList.all fun c => !isUppercase c || c.isUpper := by decide +kernel
  have hcapitals (c : Char) (hc : c ∈ d.name.toList) (h : isUppercase c) : c.isUpper := by
    simpa [h] using List.all_eq_true.mp hall c hc
  have htail (c : Char) (hc : c ∈ d.name.toList.tail) : isUppercase c → c.isUpper :=
    hcapitals c (List.mem_of_mem_tail hc)
  obtain ⟨hsnaked, hsmall, hstable, htable⟩ := snakeCase_is_stable_iff d.name
    (fun c => [c.toLower]) (fun c => List.cons_ne_nil _ _) (fun c _ => rfl)
  exact ⟨hsnaked.mpr fun c hc h => .inl (hcapitals c hc h), hsmall.mpr hcapitals,
    hstable.mpr htail, hmodel, htable d m rfl hmodel (by decide)⟩

/-- A capital beyond A to Z gets an underscore before it and stays a capital, although it has a
lower-case form, and it gets another underscore when the name is made anew. -/
theorem snakeCase_keeps_capital :
    let low (c : Char) : List Char := if c = 'É' then ['é'] else [c.toLower]
    isUppercase 'É' = true ∧ 'É' ∈ (snakeCase "MenuÉté").toList ∧
    snakeCase "MenuÉté" = "menu_Été" ∧
    String.ofList (snakedWith low "MenuÉté".toList) = "menu_été" ∧
    snakeCase (snakeCase "MenuÉté") = "menu__Été" := by
  decide +kernel

end Declaration

end Entity

end CaseUpdate
