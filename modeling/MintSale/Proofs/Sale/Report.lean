import MintSale.Sale.Report

/-!
# What arrives of a report
-/

namespace MintSale

/-- Feeds report live data, checkouts report on purchases, and either may report a failure. -/
def Message.IsProper (m : Message) : Prop :=
  match m.role, m.report with
  | .feed, .liveData _ | .feed, .failed _ => True
  | .checkout, .purchaseState _ | .checkout, .submitted .. | .checkout, .failed _ => True
  | _, _ => False

/-- What arrives tells who has sent it. -/
theorem Line.eq_of_mem_post {line : Line} {report : Report} {m : Message}
    (h : m ∈ (line.post report).toList) : m = ⟨line.role, line.generation, report⟩ := by
  unfold post at h
  split at h
  · simp at h
  · simpa using h

end MintSale
