import Dhttp.Lib.TextSplitting

namespace Dhttp.Lib
set_option autoImplicit true

/-- What the names of a naming scheme are written with, and how long they and their labels get. -/
structure NameSyntax (α : Type) where
  letter : α → Bool
  hyphen : α
  dot : α
  maxLabel : Nat
  maxName : Nat
  hyphen_letter : letter hyphen = false
  dot_letter : letter dot = false

namespace NameSyntax

variable {α : Type} {G : NameSyntax α}

/-- Letters and hyphens, with no hyphen at either end. -/
structure IsLabel (G : NameSyntax α) (label : List α) : Prop where
  nonempty : 1 ≤ label.length
  short : label.length ≤ G.maxLabel
  chars : ∀ c ∈ label, G.letter c = true ∨ c = G.hyphen
  first : label.head? ≠ some G.hyphen
  last : label.getLast? ≠ some G.hyphen

/-- The rest of a label of which `n` characters are read, the last of them a hyphen or not. -/
structure LabelRest (G : NameSyntax α) (n : Nat) (hyphened : Bool) (rest : List α) : Prop where
  short : n + rest.length ≤ G.maxLabel
  chars : ∀ c ∈ rest, G.letter c = true ∨ c = G.hyphen
  last : if rest = [] then hyphened = false else rest.getLast? ≠ some G.hyphen

theorem not_isLabel_nil : ¬ G.IsLabel [] := by
  intro h
  exact Nat.not_succ_le_zero 0 h.nonempty

theorem labelRest_nil : G.LabelRest n hyphened [] ↔ n ≤ G.maxLabel ∧ hyphened = false := by
  constructor
  · intro h
    exact ⟨h.short, h.last⟩
  · intro h
    exact ⟨h.1, fun _ hc => absurd hc List.not_mem_nil, h.2⟩

theorem LabelRest.bound (h : G.LabelRest n hyphened rest) : n ≤ G.maxLabel :=
  Nat.le_trans (Nat.le_add_right _ _) h.short

/-- The last character of a label is that of the rest, or the one before it. -/
theorem last_cons [DecidableEq α] (c : α) (rest : List α) :
    (if rest = [] then (decide (c = G.hyphen)) = false else rest.getLast? ≠ some G.hyphen) ↔
      (c :: rest).getLast? ≠ some G.hyphen := by
  cases rest with
  | nil => simp
  | cons d rest => simp

theorem labelRest_cons [DecidableEq α] {rest : List α} :
    G.LabelRest n hyphened (c :: rest) ↔
      (G.letter c = true ∨ c = G.hyphen) ∧ G.LabelRest (n + 1) (decide (c = G.hyphen)) rest := by
  constructor
  · intro h
    refine ⟨h.chars c List.mem_cons_self, ?_, ?_, ?_⟩
    · have hs := h.short
      rw [List.length_cons] at hs
      omega
    · intro d hd
      exact h.chars d (List.mem_cons_of_mem _ hd)
    · exact (last_cons c rest).2 h.last
  · intro h
    obtain ⟨hc, hrest⟩ := h
    refine ⟨?_, ?_, ?_⟩
    · have hs := hrest.short
      rw [List.length_cons]
      omega
    · intro d hd
      obtain rfl | hd := List.mem_cons.1 hd
      · exact hc
      · exact hrest.chars d hd
    · rw [if_neg (List.cons_ne_nil _ _)]
      exact (last_cons c rest).1 hrest.last

theorem isLabel_cons [DecidableEq α] {rest : List α} :
    G.IsLabel (c :: rest) ↔ G.letter c = true ∧ G.LabelRest 1 false rest := by
  constructor
  · intro h
    have hne : c ≠ G.hyphen := fun he => h.first (congrArg some he)
    have hl := (h.chars c List.mem_cons_self).resolve_right hne
    have hrest : G.LabelRest 0 false (c :: rest) := by
      refine ⟨?_, h.chars, h.last⟩
      rw [Nat.zero_add]
      exact h.short
    have hnext := (labelRest_cons.1 hrest).2
    rw [decide_eq_false hne] at hnext
    exact ⟨hl, hnext⟩
  · intro h
    obtain ⟨hl, hrest⟩ := h
    have hne : c ≠ G.hyphen := by
      intro he
      rw [he, G.hyphen_letter] at hl
      cases hl
    rw [← decide_eq_false hne] at hrest
    have hwhole : G.LabelRest 0 false (c :: rest) := labelRest_cons.2 ⟨.inl hl, hrest⟩
    refine ⟨?_, ?_, hwhole.chars, ?_, hwhole.last⟩
    · rw [List.length_cons]
      exact Nat.succ_le_succ (Nat.zero_le _)
    · have hs := hwhole.short
      rw [Nat.zero_add] at hs
      exact hs
    · exact fun he => hne (Option.some.inj he)

/-- A letter-by-letter translation between two syntaxes, on the characters of a text. -/
structure Translates (G : NameSyntax α) (H : NameSyntax β) (f : α → β) (s : List α) : Prop where
  letter : ∀ c ∈ s, H.letter (f c) = G.letter c
  hyphen : ∀ c ∈ s, f c = H.hyphen ↔ c = G.hyphen
  dot : ∀ c ∈ s, f c = H.dot ↔ c = G.dot
  maxLabel : H.maxLabel = G.maxLabel
  maxName : H.maxName = G.maxName

theorem isLabel_map [DecidableEq β] {H : NameSyntax β} {f : α → β} (ht : G.Translates H f s)
    (hsub : label ⊆ s) : H.IsLabel (label.map f) ↔ G.IsLabel label := by
  have hfirst : (label.map f).head? = some H.hyphen ↔ label.head? = some G.hyphen := by
    cases label with
    | nil => constructor <;> (intro h; cases h)
    | cons c label =>
      simp only [List.map_cons, List.head?_cons, Option.some.injEq]
      exact ht.hyphen c (hsub List.mem_cons_self)
  have hlast : (label.map f).getLast? = some H.hyphen ↔ label.getLast? = some G.hyphen := by
    rw [List.getLast?_map]
    cases he : label.getLast? with
    | none => constructor <;> (intro h; cases h)
    | some c =>
      simp only [Option.map_some, Option.some.injEq]
      exact ht.hyphen c (hsub (List.mem_of_getLast? he))
  have hchars : (∀ c ∈ label.map f, H.letter c = true ∨ c = H.hyphen) ↔
      ∀ c ∈ label, G.letter c = true ∨ c = G.hyphen := by
    rw [List.forall_mem_map]
    apply forall₂_congr
    intro c hc
    rw [ht.letter c (hsub hc), ht.hyphen c (hsub hc)]
  constructor
  · intro h
    have hn := h.nonempty
    have hs := h.short
    rw [List.length_map] at hn hs
    rw [ht.maxLabel] at hs
    exact ⟨hn, hs, hchars.1 h.chars, mt hfirst.2 h.first, mt hlast.2 h.last⟩
  · intro h
    have hn := h.nonempty
    have hs := h.short
    rw [← List.length_map (f := f)] at hn hs
    rw [← ht.maxLabel] at hs
    exact ⟨hn, hs, hchars.2 h.chars, mt hfirst.1 h.first, mt hlast.1 h.last⟩

section Names
variable [DecidableEq α]

/-- Labels with single dots between them. -/
structure IsName (G : NameSyntax α) (name : List α) : Prop where
  short : name.length ≤ G.maxName
  labels : ∀ label ∈ splitAll G.dot name, G.IsLabel label

/-- A name behind its first character, where a label of `n` characters is being read, or none. -/
inductive NameRest (G : NameSyntax α) : Option (Nat × Bool) → List α → Prop
  | start (h : ∀ label ∈ splitAll G.dot rest, G.IsLabel label) : NameRest G none rest
  | label (hs : splitAll G.dot rest = label :: labels) (hl : G.LabelRest n hyphened label)
      (h : ∀ l ∈ labels, G.IsLabel l) : NameRest G (some (n, hyphened)) rest

theorem nameRest_none {rest : List α} :
    G.NameRest none rest ↔ ∀ label ∈ splitAll G.dot rest, G.IsLabel label := by
  constructor
  · intro h
    cases h with
    | start h => exact h
  · exact .start

theorem nameRest_some {rest : List α} (hs : splitAll G.dot rest = label :: labels) :
    G.NameRest (some (n, hyphened)) rest ↔
      G.LabelRest n hyphened label ∧ ∀ l ∈ labels, G.IsLabel l := by
  constructor
  · intro h
    cases h with
    | label hs' hl h =>
      rw [hs] at hs'
      cases hs'
      exact ⟨hl, h⟩
  · intro h
    exact .label hs h.1 h.2

theorem nameRest_nil : G.NameRest (some (n, hyphened)) [] ↔ n ≤ G.maxLabel ∧ hyphened = false := by
  rw [nameRest_some (rfl : splitAll G.dot [] = [[]]), labelRest_nil]
  exact and_iff_left fun _ hl => absurd hl List.not_mem_nil

theorem nameRest_dot {rest : List α} : G.NameRest (some (n, hyphened)) (G.dot :: rest) ↔
    (n ≤ G.maxLabel ∧ hyphened = false) ∧ G.NameRest none rest := by
  rw [nameRest_some (splitAll_sep G.dot rest), nameRest_none, labelRest_nil]

theorem nameRest_char {c : α} {rest : List α} (hc : c ≠ G.dot) :
    G.NameRest (some (n, hyphened)) (c :: rest) ↔ (G.letter c = true ∨ c = G.hyphen) ∧
      G.NameRest (some (n + 1, decide (c = G.hyphen))) rest := by
  obtain ⟨label, labels, hs⟩ := List.exists_cons_of_ne_nil (splitAll_ne_nil G.dot rest)
  rw [nameRest_some (splitAll_char hc hs), nameRest_some hs, labelRest_cons, and_assoc]

theorem nameRest_first {c : α} {rest : List α} :
    G.NameRest none (c :: rest) ↔ G.letter c = true ∧ G.NameRest (some (1, false)) rest := by
  by_cases hc : c = G.dot
  · rw [nameRest_none, hc, splitAll_sep, G.dot_letter]
    constructor
    · intro h
      exact absurd (h [] List.mem_cons_self) not_isLabel_nil
    · intro h
      cases h.1
  · obtain ⟨label, labels, hs⟩ := List.exists_cons_of_ne_nil (splitAll_ne_nil G.dot rest)
    rw [nameRest_none, splitAll_char hc hs, nameRest_some hs, List.forall_mem_cons, isLabel_cons,
      and_assoc]

theorem NameRest.bound {rest : List α} (h : G.NameRest (some (n, hyphened)) rest) :
    n ≤ G.maxLabel := by
  cases h with
  | label _ hl _ => exact hl.bound

theorem isName_map [DecidableEq β] {H : NameSyntax β} {f : α → β} (ht : G.Translates H f s) :
    H.IsName (s.map f) ↔ G.IsName s := by
  have hlabels : (∀ label ∈ splitAll H.dot (s.map f), H.IsLabel label) ↔
      ∀ label ∈ splitAll G.dot s, G.IsLabel label := by
    rw [splitAll_map ht.dot, List.forall_mem_map]
    exact forall₂_congr fun label hl => isLabel_map ht (mem_splitAll hl).2
  constructor
  · intro h
    have hs := h.short
    rw [List.length_map, ht.maxName] at hs
    exact ⟨hs, hlabels.1 h.labels⟩
  · intro h
    have hs := h.short
    rw [← List.length_map (f := f), ← ht.maxName] at hs
    exact ⟨hs, hlabels.2 h.labels⟩

/-- A name is written with letters, hyphens and dots. -/
theorem IsName.chars (h : G.IsName name) (hc : c ∈ name) :
    G.letter c = true ∨ c = G.hyphen ∨ c = G.dot := by
  obtain rfl | ⟨label, hl, hcl⟩ : c = G.dot ∨ ∃ label ∈ splitAll G.dot name, c ∈ label :=
    mem_pieces hc
  · exact .inr (.inr rfl)
  · exact ((h.labels label hl).chars c hcl).imp_right .inl

end Names

end NameSyntax

end Dhttp.Lib
