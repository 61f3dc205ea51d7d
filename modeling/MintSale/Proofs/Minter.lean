import Mathlib.Data.List.Basic
import MintSale.Minter

/-!
# Names of minter types

A minter type is a known name and a version. The version makes no difference, but digits that end a
name can only be told from a version by a `V` behind them.
-/

namespace MintSale.MinterType

/-- Decimal digits and nothing else. -/
def IsNumber (text : String) : Prop :=
  ∀ c ∈ text.toList, c.isDigit

/-- A name ends in nothing that could be the beginning of a version. -/
def EndsPlainly (name : String) : Prop :=
  ∀ c ∈ name.toList.getLast?, ¬ c.isDigit ∧ c ≠ 'V'

/-- A text is a name with a version behind it: a `V` and digits, or digits alone, which must not run
into the name. -/
inductive Extends (name text : String) : Prop where
  | marked {digits : String} (hdigits : IsNumber digits) (htext : text = name ++ "V" ++ digits)
  | plain {digits : String} (hname : EndsPlainly name) (hdigits : IsNumber digits)
      (htext : text = name ++ digits)

/-! ## What stands before the version -/

theorem toList_base (text : String) :
    (base text).toList = (dropVersion text.toList.reverse).reverse := by
  rw [base, String.toList_ofList]

/-- Digits at the end are dropped, however many there are. -/
theorem dropWhile_reverse_append {front digits : List Char} (h : ∀ c ∈ digits, c.isDigit) :
    (front ++ digits).reverse.dropWhile Char.isDigit = front.reverse.dropWhile Char.isDigit := by
  rw [List.reverse_append]
  exact List.dropWhile_append_of_pos fun c hc => h c (List.mem_reverse.mp hc)

theorem dropVersion_plain {front : List Char}
    (h : ∀ c, front.getLast? = some c → ¬ c.isDigit ∧ c ≠ 'V') :
    dropVersion front.reverse = front.reverse := by
  rw [← List.head?_reverse] at h
  rw [dropVersion]
  cases hreversed : front.reverse with
  | nil => rfl
  | cons c rest =>
      obtain ⟨hdigit, hmark⟩ := h c (by rw [hreversed]; rfl)
      rw [List.dropWhile_cons_of_neg hdigit]
      split
      · next heq => exact absurd (List.cons.inj heq).1 hmark
      · rfl

theorem Extends.base_eq {name text : String} (h : Extends name text) : base text = name := by
  rw [← String.toList_inj, toList_base, List.reverse_eq_iff]
  cases h with
  | marked hdigits htext =>
      rw [htext, String.toList_append, dropVersion, dropWhile_reverse_append hdigits]
      simp
  | plain hname hdigits htext =>
      rw [htext, String.toList_append, dropVersion, dropWhile_reverse_append hdigits]
      exact dropVersion_plain hname

/-- What is dropped of a text is a version. -/
theorem dropVersion_cases (reversed : List Char) :
    reversed = reversed.takeWhile Char.isDigit ++ 'V' :: dropVersion reversed ∨
      reversed = reversed.takeWhile Char.isDigit ++ dropVersion reversed ∧
        ∀ c, (dropVersion reversed).head? = some c → ¬ c.isDigit ∧ c ≠ 'V' := by
  have hsplit := List.takeWhile_append_dropWhile (p := Char.isDigit) (l := reversed)
  unfold dropVersion
  split
  · next rest hrest =>
    rw [hrest] at hsplit
    exact .inl hsplit.symm
  · next hmark =>
    refine .inr ⟨hsplit.symm, fun c hc => ⟨?_, ?_⟩⟩
    · have hhead := List.head?_dropWhile_not Char.isDigit reversed
      rw [hc] at hhead
      simpa using hhead
    · rintro rfl
      obtain ⟨rest, hrest⟩ := List.head?_eq_some_iff.mp hc
      exact hmark rest hrest

/-- Every text is what it is based on, with a version behind it. -/
theorem extends_base (text : String) : Extends (base text) text := by
  have hdigits :
      IsNumber (String.ofList (text.toList.reverse.takeWhile Char.isDigit).reverse) := by
    intro c hc
    rw [String.toList_ofList, List.mem_reverse] at hc
    exact List.all_eq_true.mp List.all_takeWhile c hc
  rcases dropVersion_cases text.toList.reverse with hmarked | ⟨hplain, hends⟩
  · refine .marked hdigits ?_
    rw [← String.toList_inj, String.toList_append, String.toList_append, toList_base]
    simpa using congrArg List.reverse hmarked
  · refine .plain (fun c hc => hends c ?_) hdigits ?_
    · rwa [toList_base, List.getLast?_reverse] at hc
    · rw [← String.toList_inj, String.toList_append, toList_base]
      simpa using congrArg List.reverse hplain

/-! ## Known names -/

theorem lookup_known_iff {name : String} {kind : MinterKind} :
    known.lookup name = some kind ↔ (name, kind) ∈ known := by
  have hunique : ∀ entry ∈ known, known.lookup entry.1 = some entry.2 := by decide
  refine ⟨fun h => ?_, hunique (name, kind)⟩
  obtain ⟨before, after, hknown, -⟩ := List.lookup_eq_some_iff.mp h
  simp [hknown]

/-- Just one of the known names ends in digits. -/
theorem endsPlainly_iff {name : String} {kind : MinterKind} (h : (name, kind) ∈ known) :
    EndsPlainly name ↔ name ≠ "MinterSetPriceERC20" := by
  have hall : ∀ entry ∈ known,
      (entry.1.toList.getLast?.all fun c => !c.isDigit && c != 'V') =
        (entry.1 != "MinterSetPriceERC20") := by
    decide
  rw [← bne_iff_ne, ← hall _ h]
  simp [EndsPlainly, Option.all_eq_true]

/-- A type is of a kind exactly if it is one of the names of that kind and a version: a `V` and any
digits, or any digits alone, or none at all. Only the name that itself ends in digits always needs
the `V`. -/
theorem classify_eq_some_iff {text : String} {kind : MinterKind} :
    classify text = some kind ↔ ∃ name digits, (name, kind) ∈ known ∧ IsNumber digits ∧
      (text = name ++ "V" ++ digits ∨ text = name ++ digits ∧ name ≠ "MinterSetPriceERC20") := by
  rw [classify, lookup_known_iff]
  constructor
  · intro hknown
    cases extends_base text with
    | marked hdigits htext => exact ⟨_, _, hknown, hdigits, .inl htext⟩
    | plain hname hdigits htext =>
        exact ⟨_, _, hknown, hdigits, .inr ⟨htext, (endsPlainly_iff hknown).mp hname⟩⟩
  · rintro ⟨name, digits, hknown, hdigits, hmarked | ⟨hplain, hname⟩⟩
    · rwa [(Extends.marked hdigits hmarked).base_eq]
    · rwa [(Extends.plain ((endsPlainly_iff hknown).mpr hname) hdigits hplain).base_eq]

/-- The name that ends in digits is no type without a version. -/
theorem classify_loses_name :
    ("MinterSetPriceERC20", .setPriceErc20) ∈ known ∧ classify "MinterSetPriceERC20" = none := by
  decide

end MintSale.MinterType
