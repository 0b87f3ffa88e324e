import ContractNegotiation.LogEntry
import ContractNegotiation.Proofs.Text

namespace ContractNegotiation

namespace LogField

structure Legible (f : LogField) : Prop where
  key : '=' ∉ f.key.toList
  value : '"' ∉ f.value.toList

instance (f : LogField) : Decidable f.Legible :=
  decidable_of_iff ('=' ∉ f.key.toList ∧ '"' ∉ f.value.toList)
    ⟨fun h => ⟨h.1, h.2⟩, fun h => ⟨h.key, h.value⟩⟩

def splitValue : List Char → List Char × List Char
  | '"' :: cs => (cs.takeWhile (· ≠ '"'), (cs.dropWhile (· ≠ '"')).tail)
  | cs => (cs.takeWhile (· ≠ ' '), cs.dropWhile (· ≠ ' '))

theorem length_splitValue_le (cs : List Char) : (splitValue cs).2.length ≤ cs.length := by
  unfold splitValue
  split
  · rename_i cs
    have hdrop := (List.dropWhile_sublist (· ≠ '"') (l := cs)).length_le
    simp only [List.length_tail, List.length_cons]
    omega
  · exact (List.dropWhile_sublist _).length_le

def readAll : List Char → List LogField
  | [] => []
  | _ :: cs =>
    let written := splitValue (cs.dropWhile (· ≠ '=')).tail
    ⟨.ofList (cs.takeWhile (· ≠ '=')), .ofList written.1⟩ :: readAll written.2
termination_by cs => cs.length
decreasing_by
  have hvalue := length_splitValue_le (cs.dropWhile (· ≠ '=')).tail
  have hkey := (List.dropWhile_sublist (· ≠ '=') (l := cs)).length_le
  simp only [List.length_tail, List.length_cons] at hvalue ⊢
  omega

variable {before after value : List Char} {f : LogField} {fields : List LogField}

theorem span_mark {mark : Char} (hbefore : mark ∉ before) (after : List Char)
    (hafter : ∀ c ∈ after.head?, c = mark) :
    (before ++ after).takeWhile (· ≠ mark) = before ∧
      (before ++ after).dropWhile (· ≠ mark) = after := by
  have hkeep : ∀ c ∈ before, decide (c ≠ mark) = true := fun c hc =>
    decide_eq_true (ne_of_mem_of_not_mem hc hbefore)
  have hdrop : after.dropWhile (· ≠ mark) = after :=
    Text.dropWhile_of_head fun c hc => by simpa using hafter c hc
  have htake : after.takeWhile (· ≠ mark) = [] := by
    cases after with
    | nil => rfl
    | cons c after => simp [hafter c rfl]
  rw [List.takeWhile_append_of_pos hkeep, List.dropWhile_append_of_pos hkeep, htake, hdrop,
    List.append_nil]
  exact ⟨rfl, rfl⟩

theorem span_cons {mark : Char} (h : mark ∉ before) (after : List Char) :
    (before ++ mark :: after).takeWhile (· ≠ mark) = before ∧
      (before ++ mark :: after).dropWhile (· ≠ mark) = mark :: after :=
  span_mark h (mark :: after) (by simp)

theorem splitValue_quoted (hvalue : '"' ∉ value) (after : List Char) :
    splitValue ('"' :: (value ++ '"' :: after)) = (value, after) := by
  obtain ⟨htake, hdrop⟩ := span_cons hvalue after
  rw [splitValue, htake, hdrop, List.tail_cons]

theorem splitValue_plain (hvalue : '"' ∉ value) (hspace : ' ' ∉ value)
    (hafter : ∀ c ∈ after.head?, c = ' ') : splitValue (value ++ after) = (value, after) := by
  obtain ⟨htake, hdrop⟩ := span_mark hspace after hafter
  -- an empty value is followed by a space or by nothing, so that no quote comes first there either
  have hstart : ∀ cs, value ++ after = '"' :: cs → False := by
    intro cs hcs
    cases value with
    | nil =>
      have hsame : '"' = ' ' := hafter '"' (by rw [← List.nil_append after, hcs]; rfl)
      exact absurd hsame (by decide)
    | cons c value => exact hvalue ((List.cons.inj hcs).1 ▸ List.mem_cons_self)
  rw [splitValue, htake, hdrop]
  exact hstart

theorem splitValue_written (hvalue : '"' ∉ value) (hafter : ∀ c ∈ after.head?, c = ' ') :
    splitValue ((if ' ' ∈ value then '"' :: value ++ ['"'] else value) ++ after) =
      (value, after) := by
  split
  · simpa using splitValue_quoted hvalue after
  · exact splitValue_plain hvalue ‹_› hafter

theorem head_charsOfAll (fields : List LogField) : ∀ c ∈ (charsOfAll fields).head?, c = ' ' := by
  cases fields <;> simp [charsOfAll]

theorem readAll_cons (h : f.Legible) (fields : List LogField) :
    readAll (' ' :: f.chars ++ charsOfAll fields) = f :: readAll (charsOfAll fields) := by
  obtain ⟨hkey, hvalue⟩ := h
  rw [chars, List.cons_append, List.append_assoc, List.cons_append, readAll,
    (span_cons hkey _).1, (span_cons hkey _).2, List.tail_cons,
    splitValue_written hvalue (head_charsOfAll fields)]
  simp only [String.ofList_toList]

theorem readAll_charsOfAll (h : ∀ f ∈ fields, f.Legible) :
    readAll (charsOfAll fields) = fields := by
  induction fields with
  | nil => rw [charsOfAll, readAll]
  | cons f fields ih =>
    rw [charsOfAll, readAll_cons (h f List.mem_cons_self),
      ih fun g hg => h g (List.mem_cons_of_mem _ hg)]

end LogField

namespace LogEntry

def fieldsOfLine (message line : String) : List LogField :=
  LogField.readAll (line.toList.drop message.length)

theorem fieldsOfLine_line {e : LogEntry} (h : ∀ f ∈ e.fields, f.Legible) :
    fieldsOfLine e.message e.line = e.fields := by
  rw [fieldsOfLine, line, String.toList_ofList, ← String.length_toList, List.drop_left,
    LogField.readAll_charsOfAll h]

/-- A line gives its fields back once its message is known. Values may be empty and hold spaces,
line breaks and equals signs. -/
theorem line_legible {e : LogEntry} (h : ∀ f ∈ e.fields, f.Legible) :
    fieldsOfLine e.message e.line = e.fields ∧
    ∀ other : LogEntry, other.message = e.message → (∀ f ∈ other.fields, f.Legible) →
      other.line = e.line → other.fields = e.fields := by
  refine ⟨fieldsOfLine_line h, fun other hmessage hother hline => ?_⟩
  rw [← fieldsOfLine_line hother, hmessage, hline, fieldsOfLine_line h]

theorem line_legible_of_lookalikes : ∃ e : LogEntry, (∀ f ∈ e.fields, f.Legible) ∧
    e.line = "failed id= error=\"no peer\nkind=offer id=\" kind=a=b" ∧
    fieldsOfLine "failed" "failed id= error=\"no peer\nkind=offer id=\" kind=a=b" = e.fields := by
  let e : LogEntry := ⟨.warn, "failed",
    [.text "id" "", .text "error" "no peer\nkind=offer id=", .text "kind" "a=b"]⟩
  have hlegible : ∀ f ∈ e.fields, f.Legible := by decide
  have hline : e.line = "failed id= error=\"no peer\nkind=offer id=\" kind=a=b" := by decide
  exact ⟨e, hlegible, hline, hline ▸ (line_legible hlegible).1⟩

/-- Quotes within a value are not told from those that the line puts around it. -/
example : (⟨.info, "m", [.text "a" "b\" c=\"d"]⟩ : LogEntry).line =
    (⟨.info, "m", [.text "a" "\"b\"", .text "c" "\"d\""]⟩ : LogEntry).line := by decide

end LogEntry

end ContractNegotiation
