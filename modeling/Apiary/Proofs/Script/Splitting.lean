import Apiary.Engine.Context
import Apiary.Proofs.Script.Buffer
import Apiary.Proofs.Text.Pieces

/-!
Splitting a string, joining the pieces and replacing a part. What is split and joined at one text is the string again;
joined at another, it is the string with every occurrence replaced, as an edit of the source replaces it.
-/

namespace Apiary

def stringItems (texts : List (List Char)) : Array Value := (texts.map fun t => Value.string (String.ofList t)).toArray

theorem join_strings (glue : String) (texts : List (List Char)) :
    glue.intercalate (texts.map String.ofList) = String.ofList (glue.toList.intercalate texts) := by
  rw [← String.toList_inj, String.toList_intercalate, String.toList_ofList, List.map_map]
  simp [Function.comp_def]

namespace Act

variable {σ : Type} (host : Host σ) (call : Calling σ) (w : World σ)

/-- `s.split(sep).join(glue)`, with what the two calls are named in errors. -/
def splitAndJoin (s sep glue what what' : String) : Act σ Value := do
  let pieces ← callMethod host call (.string s) "split" [.string sep] what
  callMethod host call pieces "join" [.string glue] what'

theorem callMethod_split (s sep what : String) : callMethod host call (.string s) "split" [.string sep] what w =
    .ok (.array w.heap.arrays.size) (w.withArray (stringItems (splitChars sep.toList s.toList))) :=
  callMethod_of_method what rfl rfl

theorem displayItems_strings (texts : List (List Char)) :
    displayItems (texts.map fun t => .string (String.ofList t)) =
      (pure (texts.map String.ofList) : Act σ (List String)) := by
  induction texts with
  | nil => rfl
  | cons t texts ih =>
    have hfirst : displayItems (.string (String.ofList t) :: texts.map fun t => .string (String.ofList t)) = (do
        let ss ← displayItems (texts.map fun t => .string (String.ofList t))
        pure (String.ofList t :: ss) : Act σ (List String)) := rfl
    rw [List.map_cons, hfirst, ih, pure_bind]
    rfl

variable {w} in
theorem callMethod_join {cell : Nat} {texts : List (List Char)} (hitems : w.heap.array cell = stringItems texts)
    (glue what : String) : callMethod host call (.array cell) "join" [.string glue] what w =
      .ok (.string (String.ofList (glue.toList.intercalate texts))) w := by
  refine callMethod_of_method what rfl ?_
  have hsteps : arrayMethod call cell "join" [.string glue] w = (do
      let texts ← displayItems (w.heap.array cell).toList
      pure (some (.string (glue.intercalate texts))) : Act σ (Option Value)) w := rfl
  have hjoined := join_strings glue texts
  show arrayMethod call cell "join" [.string glue] w = _
  rw [hsteps, hitems, stringItems, List.toList_toArray, displayItems_strings, pure_bind, hjoined]
  rfl

theorem splitAndJoin_eq (s sep glue what what' : String) : splitAndJoin host call s sep glue what what' w =
    .ok (.string (String.ofList (glue.toList.intercalate (splitChars sep.toList s.toList))))
      (w.withArray (stringItems (splitChars sep.toList s.toList))) := by
  simp only [splitAndJoin, bind, EStateM.bind, callMethod_split]
  exact callMethod_join host call (array_withArray _) glue what'

/-- Beside the string, splitting and joining leave the array of the pieces. -/
theorem split_join_replace (s what what' : String) :
    (∀ sep, splitAndJoin host call s sep sep what what' w =
      .ok (.string s) (w.withArray (stringItems (splitChars sep.toList s.toList)))) ∧
    ∀ part replacement, part ≠ "" → ∃ text,
      splitAndJoin host call s part replacement what what' w =
        .ok (.string text) (w.withArray (stringItems (splitChars part.toList s.toList))) ∧
      (∀ what'', callMethod host call (.string s) "replaceAll" [.string part, .string replacement] what'' w =
        .ok (.string text) w) ∧
      (part.toList <:+: s.toList → ∀ history,
        (⟨s, history⟩ : CodeBuffer).edit? part replacement = some ⟨text, s :: history⟩) := by
  refine ⟨fun sep => ?_, fun part replacement hpart => ?_⟩
  · rw [splitAndJoin_eq, join_splitChars, String.ofList_toList]
  · have hchars : part.toList ≠ [] := fun hnil => hpart (String.toList_eq_nil_iff.mp hnil)
    have htext : replaceText part replacement s =
        String.ofList (replacement.toList.intercalate (splitChars part.toList s.toList)) := by
      rw [replaceText, replaceChars_eq hchars]
    refine ⟨replaceText part replacement s, ?_, fun what'' => ?_, fun hoccurs history => ?_⟩
    · rw [splitAndJoin_eq, htext]
    · exact callMethod_of_method what'' rfl rfl
    · have hoccurs' : occurs part.toList s.toList = true := occurs_iff.mpr hoccurs
      rw [CodeBuffer.edit?, if_neg (by simp [hpart, hoccurs'])]

/-- The occurrences overlap: the first two letters are one, and the third is kept. -/
theorem overlapping_replaced : "aa" ≠ "" ∧ "aa".toList <:+: "aaab".toList ∧
    splitAndJoin .countdown (calling .countdown 1 257) "aaab" "aa" "c" "s.split" "s.split(...).join" ⟨⟨{}, 0⟩, #[], #[], 0⟩ =
      .ok (.string "cab") (World.withArray ⟨⟨{}, 0⟩, #[], #[], 0⟩ (stringItems [[], ['a', 'b']])) ∧
    CodeBuffer.edit? "aa" "c" ⟨"aaab", []⟩ = some ⟨"cab", ["aaab"]⟩ := by
  have hoccurs : "aa".toList <:+: "aaab".toList := ⟨[], ['a', 'b'], rfl⟩
  obtain ⟨text, hjoined, -, hedited⟩ :=
    (split_join_replace .countdown (calling .countdown 1 257) ⟨⟨{}, 0⟩, #[], #[], 0⟩
      "aaab" "s.split" "s.split(...).join").2 "aa" "c" (by decide)
  have hedit : CodeBuffer.edit? "aa" "c" ⟨"aaab", []⟩ = some ⟨"cab", ["aaab"]⟩ := by decide
  have htext : text = "cab" := congrArg CodeBuffer.text (Option.some.inj ((hedited hoccurs []).symm.trans hedit))
  rw [htext] at hjoined
  exact ⟨by decide, hoccurs, hjoined, hedit⟩

end Act

end Apiary
