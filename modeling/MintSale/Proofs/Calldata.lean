import MintSale.Checkout.Transactions
import MintSale.ReturnData

/-!
# Call data, read back

Behind the four bytes of its selector a call is a sequence of words. Whoever splits the data into
words again finds the arguments where they have been put, and nothing else.
-/

namespace MintSale

/-- The words of a sequence of bytes that has been put together from words. -/
theorem ReturnData.wholeWords_flatMap (ws : List Word) :
    wholeWords ws.length (ws.flatMap Octets.toList) = ws := by
  induction ws with
  | nil => rfl
  | cons word ws ih =>
      have htake : ((word :: ws).flatMap Octets.toList).take 32 = word.toList :=
        List.take_left' word.length_toList
      have hdrop : ((word :: ws).flatMap Octets.toList).drop 32 = ws.flatMap Octets.toList :=
        List.drop_left' word.length_toList
      rw [List.length_cons, wholeWords, htake, hdrop, Octets.ofList?_toList]
      exact congrArg (word :: ·) ih

theorem Octets.length_flatMap_toList {n : Nat} (ws : List (Octets n)) :
    (ws.flatMap Octets.toList).length = n * ws.length := by
  induction ws with
  | nil => simp
  | cons word ws ih =>
      rw [List.flatMap_cons, List.length_append, ih, word.length_toList, List.length_cons,
        Nat.mul_add_one, Nat.add_comm]

theorem ReturnData.words_flatMap (ws : List Word) :
    words ws.length (ws.flatMap Octets.toList) = .ok ws := by
  have hlength := Octets.length_flatMap_toList ws
  rw [words, if_neg (by omega), hlength, Nat.mul_div_cancel_left ws.length (by decide),
    wholeWords_flatMap]

/-- Data that are one word. -/
theorem ReturnData.single_toList {α : Type} (value : Word → Except AbiFault α) (word : Word) :
    single value word.toList = value word := by
  have hwords : words 1 word.toList = .ok [word] := by
    simpa using words_flatMap [word]
  rw [single]
  change (words 1 word.toList).bind _ = _
  rw [hwords]
  rfl

theorem Calldata.length_selector (signature : String) : (selector signature).length = 4 := by
  simp [selector, Octets.length_toList]

/-- A transaction calls a method: its data are the method's selector and these words, and nothing
else. -/
structure Transaction.Carries (tx : Transaction) (method : Method) (ws : List Word) : Prop where
  selector_eq : tx.data.take 4 = Calldata.selector method.signature
  length_eq : tx.data.length = 4 + 32 * ws.length
  words_eq : ReturnData.words ws.length (tx.data.drop 4) = .ok ws

theorem Purchase.carries_toMinter (p : Purchase) (method : Method) (args : List Argument)
    (value : Amount) : (p.toMinter method args value).Carries method (Calldata.words args) := by
  have hselector := Calldata.length_selector method.signature
  have hdata : (p.toMinter method args value).data =
      Calldata.selector method.signature ++ (Calldata.words args).flatMap Octets.toList := rfl
  constructor
  · rw [hdata, List.take_left' hselector]
  · rw [hdata, List.length_append, hselector, Octets.length_flatMap_toList]
  · rw [hdata, List.drop_left' hselector, ReturnData.words_flatMap]

end MintSale
