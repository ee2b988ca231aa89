import Mathlib

/-!
# SQL patterns

`LIKE` of PostgreSQL over lists of characters: a percent sign stands for any text, an
underscore for any character, and a backslash takes the next character as it is. A
word between two percent signs finds the texts that contain it exactly if none of
these three is in the word.
-/

namespace Like

/-- `text LIKE pattern`. A pattern that ends with the escape character is an error of PostgreSQL, here
it matches nothing. -/
def like : List Char → List Char → Bool
  | [], text => text.isEmpty
  | '%' :: pattern, text => text.tails.any (like pattern)
  | '\\' :: c :: pattern, text =>
    match text with
    | [] => false
    | d :: text => c == d && like pattern text
  | ['\\'], _ => false
  | c :: pattern, text =>
    match text with
    | [] => false
    | d :: text => (c == '_' || c == d) && like pattern text

/-- The character has a meaning of its own in a pattern. -/
def isSpecial (c : Char) : Bool := c == '%' || c == '_' || c == '\\'

/-- The word stands for itself. -/
def Plain (word : List Char) : Prop := ∀ c ∈ word, isSpecial c = false

instance (word : List Char) : Decidable (Plain word) := inferInstanceAs (Decidable (∀ _ ∈ _, _))

@[simp] theorem like_nil (text : List Char) : like [] text = text.isEmpty := by
  rw [like]

@[simp] theorem like_percent (pattern text : List Char) :
    like ('%' :: pattern) text = text.tails.any (like pattern) := by
  rw [like]

@[simp] theorem like_escape_cons (c d : Char) (pattern text : List Char) :
    like ('\\' :: c :: pattern) (d :: text) = (c == d && like pattern text) := by
  rw [like]

@[simp] theorem like_any (d : Char) (pattern text : List Char) :
    like ('_' :: pattern) (d :: text) = like pattern text := by
  simp [like]

theorem like_plain_cons {c : Char} (h : isSpecial c = false) (d : Char)
    (pattern text : List Char) :
    like (c :: pattern) (d :: text) = (c == d && like pattern text) := by
  simp only [isSpecial, Bool.or_eq_false_iff, beq_eq_false_iff_ne] at h
  obtain ⟨⟨hp, hu⟩, hb⟩ := h
  rw [like.eq_def]
  split
  · rename_i he
    cases he
  · rename_i he
    cases he
    exact absurd rfl hp
  · rename_i he
    cases he
    exact absurd rfl hb
  · rename_i he
    cases he
    exact absurd rfl hb
  · rename_i he
    cases he
    simp only [beq_eq_false_iff_ne.mpr hu, Bool.false_or]

theorem like_plain_nil {c : Char} (h : isSpecial c = false) (pattern : List Char) :
    like (c :: pattern) [] = false := by
  simp only [isSpecial, Bool.or_eq_false_iff, beq_eq_false_iff_ne] at h
  obtain ⟨⟨hp, -⟩, hb⟩ := h
  rw [like.eq_def]
  split
  · rename_i he
    cases he
  · rename_i he
    cases he
    exact absurd rfl hp
  · rename_i he
    cases he
    exact absurd rfl hb
  · rfl
  · rfl

theorem Plain.tail {c : Char} {word : List Char} (h : Plain (c :: word)) :
    isSpecial c = false ∧ Plain word :=
  List.forall_mem_cons.mp h

/-- A plain word followed by a percent sign matches the texts that begin with it. -/
theorem like_begins {word : List Char} (h : Plain word) (text : List Char) :
    like (word ++ ['%']) text = true ↔ word <+: text := by
  induction word generalizing text with
  | nil => simp
  | cons c word ih =>
    obtain ⟨hc, hword⟩ := h.tail
    cases text with
    | nil => simp [like_plain_nil hc]
    | cons d text =>
      rw [List.cons_append, like_plain_cons hc, Bool.and_eq_true, beq_iff_eq, ih hword,
        List.cons_prefix_cons]

/-- A plain word between percent signs matches the texts that contain it. -/
theorem like_contains {word : List Char} (h : Plain word) (text : List Char) :
    like ('%' :: word ++ ['%']) text = true ↔ word <:+: text := by
  rw [List.cons_append, like_percent, List.any_eq_true]
  constructor
  · rintro ⟨suffix, hends, hmatch⟩
    exact ((like_begins h suffix).mp hmatch).isInfix.trans ((List.mem_tails _ _).mp hends).isInfix
  · intro hcontained
    obtain ⟨suffix, hbegins, hends⟩ := List.infix_iff_prefix_suffix.mp hcontained
    exact ⟨suffix, (List.mem_tails _ _).mpr hends, (like_begins h suffix).mpr hbegins⟩

/-- A text that a word before a percent sign matches, with nothing for a percent sign, a percent sign
for any character, and the escaped character alone. -/
def sample : List Char → List Char
  | [] => []
  | '%' :: word => sample word
  | '\\' :: c :: word => c :: sample word
  | ['\\'] => ['%']
  | c :: word => (if c = '_' then '%' else c) :: sample word

/-- What is left when a character is neither a percent sign nor begins an escape. -/
theorem not_escape {c : Char} {word : List Char}
    (hcons : ∀ d rest, c = '\\' → word = d :: rest → False) (hnil : c = '\\' → word = [] → False) :
    c ≠ '\\' := by
  intro hb
  cases word with
  | nil => exact hnil hb rfl
  | cons d rest => exact hcons d rest hb rfl

theorem sample_cons {c : Char} (hp : c ≠ '%') (hb : c ≠ '\\') (word : List Char) :
    sample (c :: word) = (if c = '_' then '%' else c) :: sample word := by
  rw [sample]
  · exact hp
  · exact fun d rest he => absurd he hb
  · exact fun he => absurd he hb

theorem isSpecial_eq_false {c : Char} (hp : c ≠ '%') (hu : c ≠ '_') (hb : c ≠ '\\') :
    isSpecial c = false := by
  simp [isSpecial, hp, hu, hb]

theorem like_sample (word : List Char) : like (word ++ ['%']) (sample word) = true := by
  fun_induction sample word with
  | case1 => rfl
  | case2 word ih =>
    rw [List.cons_append, like_percent, List.any_eq_true]
    exact ⟨_, (List.mem_tails _ _).mpr (List.suffix_refl _), ih⟩
  | case3 c word ih => simp [ih]
  | case4 => rfl
  | case5 c word hp hcons hnil ih =>
    by_cases hu : c = '_'
    · simp [hu, ih]
    · have hc := isSpecial_eq_false hp hu (not_escape hcons hnil)
      simp [hu, like_plain_cons hc, ih]

theorem length_sample_le (word : List Char) : (sample word).length ≤ word.length := by
  fun_induction sample word with
  | case1 => rfl
  | case2 word ih =>
    rw [List.length_cons]
    omega
  | case3 c word ih =>
    simp only [List.length_cons]
    omega
  | case4 => rfl
  | case5 c word hp hcons hnil ih =>
    simp only [List.length_cons]
    omega

/-- Only plain words are their own samples. -/
theorem plain_of_sample_eq {word : List Char} (h : sample word = word) : Plain word := by
  fun_induction sample word with
  | case1 => exact fun c hc => absurd hc List.not_mem_nil
  | case2 word ih =>
    have hlen := length_sample_le word
    rw [h, List.length_cons] at hlen
    omega
  | case3 c word ih =>
    have hlen := length_sample_le word
    have hsame := congrArg List.length h
    simp only [List.length_cons] at hsame
    omega
  | case4 => cases h
  | case5 c word hp hcons hnil ih =>
    obtain ⟨hhead, htail⟩ := List.cons.inj h
    have hu : c ≠ '_' := by
      rintro rfl
      cases hhead
    exact List.forall_mem_cons.mpr
      ⟨isSpecial_eq_false hp hu (not_escape hcons hnil), ih htail⟩

/-- A word that is not plain is not in its sample, which it matches. -/
theorem not_infix_sample {word : List Char} (h : ¬ Plain word) : ¬ word <:+: sample word := by
  intro hcontained
  exact h (plain_of_sample_eq (hcontained.eq_of_length_le (length_sample_le word)).symm)

/-- Lower-casing character by character; what has a meaning in patterns has no case. -/
structure Lowering where
  lower : Char → Char
  lower_special : ∀ c, isSpecial c = true → lower c = c
  isSpecial_lower : ∀ c, isSpecial (lower c) = isSpecial c

variable (l : Lowering)

/-- `text ILIKE pattern`: both are lower-cased first. -/
def ilike (text pattern : List Char) : Bool :=
  like (pattern.map l.lower) (text.map l.lower)

/-- The word is in the text, without regard to case. -/
def Contains (text word : List Char) : Prop := word.map l.lower <:+: text.map l.lower

instance (text word : List Char) : Decidable (Contains l text word) :=
  inferInstanceAs (Decidable (_ <:+: _))

theorem Lowering.eq_iff {c special : Char} (h : isSpecial special = true) :
    l.lower c = special ↔ c = special := by
  constructor
  · intro he
    have hc : isSpecial c = true := by rw [← l.isSpecial_lower c, he, h]
    rw [← he, l.lower_special c hc]
  · rintro rfl
    exact l.lower_special c h

theorem plain_map (word : List Char) : Plain (word.map l.lower) ↔ Plain word := by
  simp only [Plain, List.forall_mem_map, l.isSpecial_lower]

theorem sample_map (word : List Char) : sample (word.map l.lower) = (sample word).map l.lower := by
  have hpercent : l.lower '%' = '%' := l.lower_special '%' rfl
  have hescape : l.lower '\\' = '\\' := l.lower_special '\\' rfl
  fun_induction sample word with
  | case1 => rfl
  | case2 word ih =>
    rw [List.map_cons, hpercent, sample]
    exact ih
  | case3 c word ih =>
    rw [List.map_cons, List.map_cons, hescape, sample, ih]
    rfl
  | case4 => simp [hescape, hpercent, sample]
  | case5 c word hp hcons hnil ih =>
    have hb := not_escape hcons hnil
    have hp' : l.lower c ≠ '%' := fun he => hp ((l.eq_iff rfl).mp he)
    have hb' : l.lower c ≠ '\\' := fun he => hb ((l.eq_iff rfl).mp he)
    rw [List.map_cons, sample_cons hp' hb', List.map_cons, ih]
    by_cases hu : c = '_'
    · have hany : l.lower '_' = '_' := l.lower_special '_' rfl
      rw [hu, if_pos hany, if_pos rfl, hpercent]
    · rw [if_neg fun he => hu ((l.eq_iff rfl).mp he), if_neg hu]

/-- The search for a word between percent signs is a search for the word in all texts if and only if
the word is plain. -/
theorem ilike_iff_contains (word : List Char) :
    (∀ text, ilike l text ('%' :: word ++ ['%']) = true ↔ Contains l text word) ↔ Plain word := by
  have hpercent : l.lower '%' = '%' := l.lower_special '%' rfl
  have hpattern : ('%' :: word ++ ['%']).map l.lower = '%' :: word.map l.lower ++ ['%'] := by
    simp only [List.map_append, List.map_cons, List.map_nil, hpercent]
  simp only [ilike, hpattern, Contains]
  constructor
  · intro hall
    by_contra hword
    -- the sample matches the pattern already without the first percent sign
    have hmatch : like ('%' :: word.map l.lower ++ ['%']) ((sample word).map l.lower) = true := by
      rw [List.cons_append, like_percent, List.any_eq_true, ← sample_map]
      exact ⟨_, (List.mem_tails _ _).mpr (List.suffix_refl _), like_sample _⟩
    have hcontained := (hall (sample word)).mp hmatch
    rw [← sample_map] at hcontained
    exact not_infix_sample (fun hplain => hword ((plain_map l word).mp hplain)) hcontained
  · intro hword text
    exact like_contains ((plain_map l word).mpr hword) (text.map l.lower)

end Like
