import Templating.Error

/-!
# Messages about what was not expected

Faults of sources say what was found in a place where it does not belong, and end with the number of
its line. The number can be read off the message again, so such a message tells the line of what was
rejected; only the message of a stray end tag goes on to the line of the tag that is open there.
-/

namespace Templating.Fault

/-- The number at the end of a message can be read off it. -/
theorem onLine_inj {a b : String} {n m : Nat} (h : a ++ onLine n = b ++ onLine m) : n = m := by
  have hread (a : String) (n : Nat) :
      ((a ++ onLine n).toList.reverse.drop 1).takeWhile Char.isDigit =
        (Nat.toDigits 10 n).reverse := by
    have hrest : (" on line ".toList.reverse ++ a.toList.reverse).takeWhile Char.isDigit = [] := rfl
    have hlist : (a ++ onLine n).toList.reverse.drop 1 =
        (Nat.toDigits 10 n).reverse ++ (" on line ".toList.reverse ++ a.toList.reverse) := by
      simp [onLine, toString, Nat.toList_repr]
    rw [hlist, List.takeWhile_append_of_pos, hrest, List.append_nil]
    exact fun c hc => Nat.isDigit_of_mem_toDigits (by decide) (by decide) (List.mem_reverse.mp hc)
  have hsame : Nat.toDigits 10 n = Nat.toDigits 10 m := by
    rw [← List.reverse_inj, ← hread a n, ← hread b m, h]
  rw [← Nat.ofDigitChars_toDigits (b := 10) (n := n) (by decide) (by decide), hsame,
    Nat.ofDigitChars_toDigits (by decide) (by decide)]

/-- The line of the token, tag or label that was rejected. -/
def rejectedLine? : Fault → Option Nat
  | unexpectedCharacter _ line | unexpectedNumber _ line | unexpectedToken _ _ line => some line
  | unexpectedTagEnd line | unexpectedEnd line => some line
  | unknownTag _ line | strayEndTag _ line _ => some line
  | labelAfterElse _ line | repeatedElse line => some line
  | _ => none

/-- The fault was raised by a loader, a filter or a tag that an application supplied. -/
def isCustom : Fault → Bool
  | custom .. => true
  | _ => false

/-- The message has the form of those about something unexpected, and ends with that line. -/
def SaysUnexpected (f : Fault) (n : Nat) : Prop :=
  ∃ what, f.detail? = some ("Unexpected " ++ what ++ onLine n)

/-- Such a message ends with the line of what was rejected, or with that of the tag that is open
where a stray end tag was rejected. -/
theorem SaysUnexpected.rejectedLine? {f : Fault} {n : Nat} (h : f.SaysUnexpected n)
    (hcustom : f.isCustom = false) : f.rejectedLine? = some n ∨
      ∃ word line opened, f = .strayEndTag word line (some (opened, n)) := by
  obtain ⟨what, h⟩ := h
  have hline {a : String} {line : Nat} (heq : f.detail? = some (a ++ onLine line)) : line = n :=
    onLine_inj (Option.some.inj (heq.symm.trans h))
  have hfront : f.detail?.map (fun s => s.toList.take 4) = some "Unex".toList := by simp [h]
  have hback : f.detail?.map (fun s => s.toList.getLast?) = some (some '.') := by
    rw [h, Option.map_some, onLine, ← String.append_assoc, String.toList_append]
    exact congrArg some List.getLast?_concat
  cases f with
  | unexpectedCharacter | unexpectedNumber | unexpectedToken | unexpectedTagEnd | unexpectedEnd
    | unknownTag | labelAfterElse | repeatedElse => exact .inl (congrArg some (hline rfl))
  | strayEndTag word line opened? =>
    rcases opened? with _ | ⟨opened, openLine⟩
    · exact .inl (congrArg some (hline rfl))
    · obtain rfl : openLine = n := hline rfl
      exact .inr ⟨word, line, opened, rfl⟩
  | custom => simp [isCustom] at hcustom
  | _ => simp [detail?] at hfront hback

end Templating.Fault
