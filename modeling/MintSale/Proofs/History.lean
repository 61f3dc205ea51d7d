/-!
# Histories

A history is a list of entries, the latest one last. What an entry means often depends on the
entries before it.
-/

namespace MintSale.History

variable {α β : Type}

/-- `P` holds of every entry, given the entries before it. -/
def Throughout (P : List α → α → Prop) (history : List α) : Prop :=
  ∀ earlier entry later, history = earlier ++ entry :: later → P earlier entry

theorem throughout_nil (P : List α → α → Prop) : Throughout P [] := by
  intro earlier entry later h
  simp at h

theorem throughout_append_iff (P : List α → α → Prop) (first second : List α) :
    Throughout P (first ++ second) ↔
      Throughout P first ∧ Throughout (fun earlier => P (first ++ earlier)) second := by
  constructor
  · intro h
    refine ⟨fun earlier entry later hs => ?_, fun earlier entry later hs => ?_⟩
    · exact h earlier entry (later ++ second) (by simp [hs])
    · exact h (first ++ earlier) entry later (by simp [hs])
  · rintro ⟨hfirst, hsecond⟩ earlier entry later hs
    rcases List.append_eq_append_iff.mp hs with ⟨gap, rfl, hgap⟩ | ⟨gap, rfl, hgap⟩
    · exact hsecond gap entry later hgap
    · cases gap with
      | nil => simpa using hsecond [] entry later (by simpa using hgap.symm)
      | cons x gap =>
          obtain ⟨rfl, rfl⟩ := List.cons.inj hgap
          exact hfirst earlier entry gap rfl

/-- Entries that each satisfy `P` after any history do so in a row. -/
theorem throughout_of_forall (P : List α → α → Prop) {entries : List α}
    (h : ∀ entry ∈ entries, ∀ earlier, P earlier entry) : Throughout P entries := by
  rintro earlier entry later rfl
  exact h entry (by simp) earlier

theorem Throughout.concat {P : List α → α → Prop} {history : List α} {entry : α}
    (h : Throughout P history) (hentry : P history entry) : Throughout P (history ++ [entry]) := by
  refine (throughout_append_iff _ _ _).mpr ⟨h, ?_⟩
  intro earlier x later hs
  obtain ⟨rfl, rfl, rfl⟩ : earlier = [] ∧ x = entry ∧ later = [] := by
    cases earlier with
    | nil => simpa [eq_comm] using hs
    | cons y earlier => simp at hs
  simpa using hentry

/-- What holds of the images throughout holds throughout the images. -/
theorem throughout_map {P : List β → β → Prop} {image : α → β} {history : List α}
    (h : Throughout (fun earlier entry => P (earlier.map image) (image entry)) history) :
    Throughout P (history.map image) := by
  intro earlier entry later hs
  obtain ⟨before, rest, rfl, rfl, hrest⟩ := List.map_eq_append_iff.mp hs
  obtain ⟨x, after, rfl, rfl, rfl⟩ := List.map_eq_cons_iff.mp hrest
  exact h before x after rfl

/-! ## The latest entry of a kind -/

/-- An entry is of a kind, and no later one is. -/
def Latest (kind : α → Prop) (history : List α) (entry : α) : Prop :=
  kind entry ∧ ∃ earlier later, history = earlier ++ entry :: later ∧ ∀ x ∈ later, ¬ kind x

theorem latest_concat {kind : α → Prop} (history : List α) {entry : α} (h : kind entry) :
    Latest kind (history ++ [entry]) entry :=
  ⟨h, history, [], by simp⟩

/-- Entries of other kinds do not change which one is the latest. -/
theorem Latest.append {kind : α → Prop} {history : List α} {entry : α}
    (h : Latest kind history entry) {more : List α} (hmore : ∀ x ∈ more, ¬ kind x) :
    Latest kind (history ++ more) entry := by
  obtain ⟨hkind, earlier, later, rfl, hlater⟩ := h
  refine ⟨hkind, earlier, later ++ more, by simp, ?_⟩
  intro x hx
  rcases List.mem_append.mp hx with hx | hx
  · exact hlater x hx
  · exact hmore x hx

theorem Latest.of_append {kind : α → Prop} {history more : List α} {entry : α}
    (h : Latest kind (history ++ more) entry) (hmore : ∀ x ∈ more, ¬ kind x) :
    Latest kind history entry := by
  obtain ⟨hkind, earlier, later, hs, hlater⟩ := h
  have hnot : entry ∉ more := fun hmem => hmore entry hmem hkind
  rcases List.append_eq_append_iff.mp hs with ⟨gap, rfl, hgap⟩ | ⟨gap, rfl, hgap⟩
  · simp [hgap] at hnot
  · cases gap with
    | nil =>
        rw [List.nil_append] at hgap
        simp [← hgap] at hnot
    | cons x gap =>
        obtain ⟨rfl, rfl⟩ := List.cons.inj hgap
        exact ⟨hkind, earlier, gap, rfl, fun x hx => hlater x (List.mem_append_left _ hx)⟩

theorem Latest.eq_of_concat {kind : α → Prop} {history : List α} {entry x : α}
    (h : Latest kind (history ++ [x]) entry) (hx : kind x) : entry = x := by
  obtain ⟨-, earlier, later, hs, hlater⟩ := h
  rcases List.eq_nil_or_concat later with rfl | ⟨later, y, rfl⟩
  · simpa using (List.append_inj' hs rfl).2.symm
  · have hsplit : history ++ [x] = (earlier ++ entry :: later) ++ [y] := by simp [hs]
    obtain rfl : x = y := by simpa using (List.append_inj' hsplit rfl).2
    exact absurd hx (hlater x (by simp))

/-! ## Excerpts -/

/-- An excerpt that may leave entries out is part of the full one. -/
theorem filterMap_sublist {part whole : α → Option β}
    (h : ∀ x, part x = none ∨ part x = whole x) (history : List α) :
    (history.filterMap part).Sublist (history.filterMap whole) := by
  induction history with
  | nil => exact .refl []
  | cons x history ih =>
      rcases h x with hx | hx
      · rw [List.filterMap_cons_none hx]
        cases hw : whole x with
        | none => rwa [List.filterMap_cons_none hw]
        | some y =>
            rw [List.filterMap_cons_some hw]
            exact ih.cons y
      · cases hw : whole x with
        | none => rwa [List.filterMap_cons_none hw, List.filterMap_cons_none (hx.trans hw)]
        | some y =>
            rw [List.filterMap_cons_some hw, List.filterMap_cons_some (hx.trans hw)]
            exact ih.cons_cons y

/-- An excerpt that may leave entries out leaves none out exactly if it is as good as the full
one. -/
theorem filterMap_eq_iff {part whole : α → Option β}
    (h : ∀ x, part x = none ∨ part x = whole x) (history : List α) :
    history.filterMap part = history.filterMap whole ↔ ∀ x ∈ history, part x = whole x := by
  induction history with
  | nil => simp
  | cons x history ih =>
      rcases h x with hx | hx
      · cases hw : whole x with
        | none => simpa [List.filterMap_cons, hx, hw] using ih
        | some y =>
            -- Here an entry is left out, and nothing later makes up for it.
            have hle := (filterMap_sublist h history).length_le
            constructor
            · intro heq
              have hlength := congrArg List.length heq
              simp only [List.filterMap_cons, hx, hw, List.length_cons] at hlength
              omega
            · intro hall
              have hboth := hall x List.mem_cons_self
              simp [hx, hw] at hboth
      · cases hw : whole x <;> simpa [List.filterMap_cons, hx, hw] using ih

/-- The latest entry of an excerpt has its place in the history. -/
theorem Latest.of_excerpt {kind : β → Prop} {excerpt : α → Option β} {history : List α} {x : β}
    (h : Latest kind (history.filterMap excerpt) x) :
    ∃ earlier entry later, history = earlier ++ entry :: later ∧ excerpt entry = some x ∧
      ∀ y ∈ later.filterMap excerpt, ¬ kind y := by
  obtain ⟨-, before, after, hs, hafter⟩ := h
  obtain ⟨first, second, rfl, -, hsecond⟩ := List.filterMap_eq_append_iff.mp hs
  obtain ⟨gap, entry, later, rfl, -, hentry, rfl⟩ := List.filterMap_eq_cons_iff.mp hsecond
  exact ⟨first ++ gap, entry, later, by simp, hentry, hafter⟩

end MintSale.History
