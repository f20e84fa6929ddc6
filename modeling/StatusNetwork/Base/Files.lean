import Mathlib.Data.List.Nodup

/-!
# Files that are renamed

A directory tree as the list of the paths that exist. A renaming is atomic: it fails if there is no
file at the old path, and replaces what is at the new one. `label` says what a file at a path
belongs to, and a renaming that keeps it neither loses nor doubles a file.
-/

namespace Files

variable {P : Type u} {Q : Type v}

/-- Every label has one file. -/
structure Unique (label : P → Q) (labels : List Q) (files : List P) : Prop where
  nodup : (files.map label).Nodup
  mem_iff : ∀ q, q ∈ files.map label ↔ q ∈ labels

section
variable {label : P → Q} {labels : List Q} {files : List P}

theorem Unique.eq_of_label (h : Unique label labels files) (hp : p ∈ files) (hq : q ∈ files)
    (heq : label p = label q) : p = q :=
  List.inj_on_of_nodup_map h.nodup hp hq heq

theorem Unique.existsUnique (h : Unique label labels files) (hq : q ∈ labels) :
    ∃! p, p ∈ files ∧ label p = q := by
  obtain ⟨p, hp, rfl⟩ := List.mem_map.mp ((h.mem_iff q).mpr hq)
  exact ⟨p, ⟨hp, rfl⟩, fun p' hp' => h.eq_of_label hp'.1 hp hp'.2⟩

theorem Unique.cons (h : Unique label labels files) (hp : label p ∉ labels) :
    Unique label (label p :: labels) (p :: files) := by
  refine ⟨?_, fun q => ?_⟩
  · rw [List.map_cons, List.nodup_cons]
    exact ⟨fun hmem => hp ((h.mem_iff _).mp hmem), h.nodup⟩
  · rw [List.map_cons, List.mem_cons, List.mem_cons, h.mem_iff]

end

variable [DecidableEq P] {label : P → Q} {labels : List Q} {files : List P}

def rename (files : List P) (old new : P) : Option (List P) :=
  if old ∈ files then some (new :: files.filter fun p => p ≠ old ∧ p ≠ new) else none

theorem rename_eq_some (h : rename files old new = some files') :
    old ∈ files ∧ ∀ p, p ∈ files' ↔ p = new ∨ (p ∈ files ∧ p ≠ old) := by
  unfold rename at h
  split at h
  · rename_i hold
    cases h
    refine ⟨hold, fun p => ?_⟩
    by_cases hp : p = new
    all_goals
      simp [hp]
  · cases h

theorem rename_eq_none : rename files old new = none ↔ old ∉ files := by
  unfold rename
  split
  all_goals
    simp [*]

theorem Unique.rename (h : Unique label labels files) (hlabel : label new = label old)
    (hrename : rename files old new = some files') : Unique label labels files' := by
  obtain ⟨hold, hmem⟩ := rename_eq_some hrename
  unfold Files.rename at hrename
  rw [if_pos hold] at hrename
  cases hrename
  refine ⟨?_, fun q => ?_⟩
  · rw [List.map_cons, List.nodup_cons]
    refine ⟨fun hnew => ?_, h.nodup.sublist (List.filter_sublist.map label)⟩
    obtain ⟨p, hp, heq⟩ := List.mem_map.mp hnew
    obtain ⟨hp, hne⟩ := List.mem_filter.mp hp
    simp only [decide_eq_true_eq] at hne
    exact hne.1 (h.eq_of_label hp hold (heq.trans hlabel))
  · rw [← h.mem_iff q]
    constructor
    · intro hq
      obtain ⟨p, hp, rfl⟩ := List.mem_map.mp hq
      rcases (hmem p).mp hp with rfl | ⟨hp, -⟩
      · exact hlabel ▸ List.mem_map_of_mem hold
      · exact List.mem_map_of_mem hp
    · intro hq
      obtain ⟨p, hp, rfl⟩ := List.mem_map.mp hq
      by_cases heq : p = old
      · subst heq
        exact hlabel ▸ List.mem_map_of_mem ((hmem new).mpr (.inl rfl))
      · exact List.mem_map_of_mem ((hmem p).mpr (.inr ⟨hp, heq⟩))

end Files
