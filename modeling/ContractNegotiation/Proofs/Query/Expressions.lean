import ContractNegotiation.Proofs.Text
import ContractNegotiation.Query.Criterion

/-! Written criteria and how they are read. Operators between spaces are found where they stand.
Without the spaces a value can hide one: the words of it are searched for keywords first, and for an
inequality next, before an equality is looked for. -/

namespace ContractNegotiation.Query

open Text

structure Plain (path : String) : Prop where
  ne : path ≠ ""
  plain : ∀ c ∈ path.toList, isBlank c = false ∧ c ≠ '=' ∧ c ≠ '!'

theorem plain_iff (path : String) : Plain path ↔ path ≠ "" ∧
    (path.toList.all fun c => !isBlank c && c ≠ '=' && c ≠ '!') = true := by
  simp only [List.all_eq_true, Bool.and_eq_true, Bool.not_eq_true', decide_eq_true_eq, and_assoc]
  exact ⟨fun h => ⟨h.1, h.2⟩, fun h => ⟨h.1, h.2⟩⟩

instance (path : String) : Decidable (Plain path) := decidable_of_iff _ (plain_iff path).symm

def Worded (cs : List Char) : Prop :=
  ∃ before blanks word after, cs = before ++ ' ' :: (blanks ++ (word ++ ' ' :: after)) ∧
    ' ' ∉ before ∧ (∀ c ∈ blanks, isBlank c = true) ∧ String.ofList (lower word) ∈ ["in", "like"]

namespace Criterion

variable {cs path blanks word operand value gap : List Char} {c : Criterion}

theorem keyword?_append (h : ' ' ∉ path) (cs : List Char) : keyword? (path ++ cs) =
    (keyword? cs).map fun c => { c with path := String.ofList (path ++ c.path.toList) } := by
  unfold keyword?
  rw [cutAt?_append h]
  cases cutAt? [' '] cs with
  | none => rfl
  | some cut =>
    obtain ⟨before, rest⟩ := cut
    cases hword : cutAt? [' '] (trim rest) with
    | none => simp [hword]
    | some cut =>
      simp only [Option.map_some, hword]
      split <;> simp

theorem blankless_of_keyword (h : String.ofList (lower word) ∈ ["in", "like"]) :
    word ≠ [] ∧ ∀ c ∈ word, isBlank c = false := by
  have hletters : ∀ keyword ∈ ["in", "like"],
      (keyword.toList.all fun c => !isBlank c) = true := by decide
  constructor
  · rintro rfl
    revert h
    decide
  · intro c hc
    rw [← Bool.not_eq_true]
    intro hblank
    have hmem : c ∈ lower word := toLower_of_isBlank hblank ▸ List.mem_map_of_mem hc
    have hletter := blankless_of_all (hletters _ h) c (by rwa [String.toList_ofList])
    rw [hblank] at hletter
    cases hletter

theorem notMem_of_blankless (h : ∀ c ∈ cs, isBlank c = false) : ' ' ∉ cs := by
  intro hmem
  have := h ' ' hmem
  revert this
  decide

theorem keyword?_of_word (hpath : ' ' ∉ path) (blanks : List Char)
    (hblanks : ∀ c ∈ blanks, isBlank c = true) (hword : ∀ c ∈ word, isBlank c = false)
    (hneat : Neat (word ++ ' ' :: operand)) :
    keyword? (path ++ ' ' :: (blanks ++ (word ++ ' ' :: operand))) =
      if String.ofList (lower word) ∈ ["in", "like"] then
        some ⟨String.ofList path, String.ofList (lower word), String.ofList (trim operand)⟩
      else none := by
  have hfirst : cutAt? [' '] (path ++ ' ' :: (blanks ++ (word ++ ' ' :: operand))) =
      some (path, blanks ++ (word ++ ' ' :: operand)) := cutAt?_of_notMem hpath _
  have hsecond : cutAt? [' '] (word ++ ' ' :: operand) = some (word, operand) :=
    cutAt?_of_notMem (notMem_of_blankless hword) operand
  unfold keyword?
  simp only [hfirst, trim_append_left hblanks, trim_of_neat hneat, hsecond]
  by_cases hkeyword : String.ofList (lower word) ∈ ["in", "like"]
  · rw [if_pos hkeyword, if_pos (by simpa [Operator.text] using hkeyword)]
  · rw [if_neg hkeyword, if_neg (by simpa [Operator.text] using hkeyword)]

theorem worded_of_keyword? (hcs : Neat cs) (h : keyword? cs = some c) : Worded cs := by
  unfold keyword? at h
  split at h
  · cases h
  · rename_i path rest hpath
    split at h
    · cases h
    · rename_i word operand hword
      dsimp only at h
      split at h
      · rename_i hkeyword
        obtain ⟨rfl, hfree⟩ := notMem_of_cutAt? hpath
        obtain ⟨hrest, -⟩ := notMem_of_cutAt? hword
        obtain ⟨blanks, after, hblanks, hafter, hpadded⟩ := padded_trim rest
        rw [hrest] at hpadded
        subst hpadded
        -- The text ends with a sign that is no blank, so nothing was trimmed off there.
        obtain rfl : after = [] := by
          by_contra hne
          obtain ⟨before, last, rfl⟩ : ∃ before last, after = before ++ [last] :=
            ⟨_, _, (List.dropLast_concat_getLast hne).symm⟩
          have hlast := hcs.last last (List.getLast?_eq_some_iff.mpr
            ⟨path ++ ' ' :: (blanks ++ (word ++ ' ' :: operand) ++ before), by simp⟩)
          rw [hafter last (by simp)] at hlast
          cases hlast
        refine ⟨path, blanks, word, operand, by simp, hfree, hblanks, ?_⟩
        simpa [Operator.text] using hkeyword
      · cases h

theorem keyword?_ne_none (hcs : Neat cs) (h : Worded cs) : keyword? cs ≠ none := by
  obtain ⟨before, blanks, word, after, rfl, hbefore, hblanks, hkeyword⟩ := h
  obtain ⟨hne, hword⟩ := blankless_of_keyword hkeyword
  have hneat : Neat (word ++ ' ' :: after) := by
    constructor
    · rw [List.head?_append_of_ne_nil _ hne]
      exact (neat_of_blankless hword).first
    · intro c hc
      have hlast := hcs.last c
      rw [← List.cons_append, ← List.append_assoc,
        List.getLast?_append_of_ne_nil _ (List.append_ne_nil_of_left_ne_nil hne _)] at hlast
      exact hlast hc
  rw [keyword?_of_word hbefore blanks hblanks hword hneat, if_pos hkeyword]
  exact Option.some_ne_none _

theorem keyword?_eq_none_iff (hcs : Neat cs) : keyword? cs = none ↔ ¬ Worded cs := by
  refine ⟨fun h hworded => keyword?_ne_none hcs hworded h, fun h => ?_⟩
  cases hkeyword : keyword? cs with
  | none => rfl
  | some c => exact absurd (worded_of_keyword? hcs hkeyword) h

theorem infixed?_of_gap {op : Operator} {m : Char} {mark : List Char}
    (hop : op.text.toList = m :: mark) (gap : List Char) (hm : m ∉ path ++ gap) (hpath : Neat path)
    (hgap : ∀ c ∈ gap, isBlank c = true) (hvalue : Neat value) :
    infixed? op (path ++ gap ++ (op.text.toList ++ (gap ++ value))) =
      some ⟨String.ofList path, op.text, String.ofList value⟩ := by
  unfold infixed?
  rw [hop, cutAt?_of_notMem hm]
  simp [trim_append_left hgap, trim_append_right hgap, trim_of_neat hpath, trim_of_neat hvalue]

theorem text_unequal : Operator.unequal.text.toList = ['!', '='] := by decide

theorem text_equal : Operator.equal.text.toList = ['='] := by decide

theorem infixed?_unequal_eq_none_iff (h : '!' ∉ path) (value : List Char) :
    infixed? .unequal (path ++ value) = none ↔ ¬ ['!', '='] <:+: value := by
  rw [infixed?, text_unequal, cutAt?_append h, Option.map_eq_none_iff, Option.map_eq_none_iff,
    cutAt?_eq_none_iff (List.cons_ne_nil _ _)]

theorem op_of_infixed? {op : Operator} (h : infixed? op cs = some c) : c.op = op.text := by
  obtain ⟨cut, -, rfl⟩ := Option.map_eq_some_iff.mp h
  rfl

section Written

variable {p v : String} (hp : Plain p) (hv : v ≠ "") (hneat : Neat v.toList)
include hp

theorem neat_of_plain : Neat p.toList := neat_of_blankless fun c hc => (hp.plain c hc).1

theorem notMem_of_plain : ' ' ∉ p.toList ∧ '=' ∉ p.toList ∧ '!' ∉ p.toList :=
  ⟨notMem_of_blankless fun c hc => (hp.plain c hc).1, fun h => (hp.plain _ h).2.1 rfl,
    fun h => (hp.plain _ h).2.2 rfl⟩

include hneat

theorem keyword?_joined (sign : List Char) (hsign : ' ' ∉ sign) :
    (keyword? (p.toList ++ sign ++ v.toList) = none ↔ ¬ Worded v.toList) ∧
    ∀ c, keyword? (p.toList ++ sign ++ v.toList) = some c → sign <:+: c.path.toList := by
  have hfree : ' ' ∉ p.toList ++ sign := by simp [(notMem_of_plain hp).1, hsign]
  rw [keyword?_append hfree, Option.map_eq_none_iff]
  refine ⟨keyword?_eq_none_iff hneat, ?_⟩
  rintro c hc
  obtain ⟨c, -, rfl⟩ := Option.map_eq_some_iff.mp hc
  rw [String.toList_ofList]
  exact ⟨p.toList, c.path.toList, by simp⟩

theorem equality_iff (gap : List Char) (hgap : ∀ c ∈ gap, isBlank c = true)
    (hkeyword : keyword? (p.toList ++ gap ++ (['='] ++ (gap ++ v.toList))) = none) :
    (keyword? (p.toList ++ gap ++ (['='] ++ (gap ++ v.toList))) <|>
      infixed? .unequal (p.toList ++ gap ++ (['='] ++ (gap ++ v.toList))) <|>
      infixed? .equal (p.toList ++ gap ++ (['='] ++ (gap ++ v.toList)))) = some ⟨p, "=", v⟩ ↔
      ¬ ['!', '='] <:+: v.toList := by
  have hblank (c : Char) (hc : isBlank c = false) : c ∉ gap := fun h => by simp [hgap c h] at hc
  have hfree : '!' ∉ p.toList ++ gap ++ (['='] ++ gap) := by
    simp [(notMem_of_plain hp).2.2, hblank '!' (by decide)]
  have hunequal := infixed?_unequal_eq_none_iff hfree v.toList
  have hequal := infixed?_of_gap text_equal gap
    (by simp [(notMem_of_plain hp).2.1, hblank '=' (by decide)]) (neat_of_plain hp) hgap hneat
  rw [text_equal] at hequal
  simp only [List.append_assoc] at hkeyword hunequal hequal ⊢
  rw [hkeyword, ← hunequal]
  cases h : infixed? .unequal (p.toList ++ (gap ++ (['='] ++ (gap ++ v.toList)))) with
  | none => simpa [Operator.text] using hequal
  | some c =>
    have hop := op_of_infixed? h
    refine iff_of_false ?_ (Option.some_ne_none c)
    intro heq
    rw [Option.some.inj heq] at hop
    simp [Operator.text] at hop

include hv

theorem ofText?_written (sign : String) {cs : List Char}
    (hcs : p.toList ++ sign.toList ++ v.toList = cs) : ofText? (p ++ sign ++ v) =
      (keyword? cs <|> infixed? .unequal cs <|> infixed? .equal cs) := by
  have hwhole : Neat (p.toList ++ sign.toList ++ v.toList) :=
    (neat_of_plain hp).around (by simpa using hp.ne) hneat (by simpa using hv) _
  rw [ofText?, String.toList_append, String.toList_append, trim_of_neat hwhole, hcs]

theorem keyword?_spaced (word : List Char) (hword : ∀ c ∈ word, isBlank c = false)
    (hne : word ≠ []) : keyword? (p.toList ++ ' ' :: (word ++ ' ' :: v.toList)) =
      if String.ofList (lower word) ∈ ["in", "like"] then
        some ⟨p, String.ofList (lower word), v⟩
      else none := by
  have hbody : Neat (word ++ ' ' :: v.toList) := by
    have h := (neat_of_blankless hword).around hne hneat (by simpa using hv) [' ']
    rwa [List.append_assoc] at h
  have hread := keyword?_of_word (notMem_of_plain hp).1 [] (by simp) hword hbody
  rwa [trim_of_neat hneat, String.ofList_toList, String.ofList_toList] at hread

theorem ofText?_keyword (word : String) (hword : word ∈ ["in", "like"]) :
    ofText? (p ++ (" " ++ word ++ " ") ++ v) = some ⟨p, word, v⟩ := by
  have hlower : ∀ word ∈ ["in", "like"], (word.toList.all fun c => !isBlank c) = true ∧
      word.toList ≠ [] ∧ String.ofList (lower word.toList) = word := by decide
  obtain ⟨hblankless, hne, hsame⟩ := hlower word hword
  have hcs : p.toList ++ (" " ++ word ++ " ").toList ++ v.toList =
      p.toList ++ ' ' :: (word.toList ++ ' ' :: v.toList) := by simp
  rw [ofText?_written hp hv hneat _ hcs,
    keyword?_spaced hp hv hneat _ (blankless_of_all hblankless) hne, hsame, if_pos hword]
  rfl

theorem ofText?_unequal_spaced : ofText? (p ++ " != " ++ v) = some ⟨p, "!=", v⟩ := by
  have hkeyword := keyword?_spaced hp hv hneat ['!', '='] (blankless_of_all rfl) (by decide)
  have hinfixed := infixed?_of_gap text_unequal [' '] (by simpa using (notMem_of_plain hp).2.2)
    (neat_of_plain hp) (List.all_eq_true.mp rfl) hneat
  have hcs : p.toList ++ " != ".toList ++ v.toList =
      p.toList ++ ' ' :: (['!', '='] ++ ' ' :: v.toList) := by simp
  rw [ofText?_written hp hv hneat _ hcs, hkeyword, if_neg (by decide)]
  simpa [Operator.text] using Or.inl hinfixed

theorem ofText?_unequal_iff :
    ofText? (p ++ "!=" ++ v) = some ⟨p, "!=", v⟩ ↔ ¬ Worded v.toList := by
  obtain ⟨hnone, hsome⟩ := keyword?_joined hp hneat ['!', '='] (by decide)
  have hinfixed := infixed?_of_gap text_unequal [] (by simpa using (notMem_of_plain hp).2.2)
    (neat_of_plain hp) (by simp) hneat
  have hcs : p.toList ++ "!=".toList ++ v.toList = p.toList ++ ['!', '='] ++ v.toList := by simp
  rw [ofText?_written hp hv hneat _ hcs]
  cases hkeyword : keyword? (p.toList ++ ['!', '='] ++ v.toList) with
  | none =>
    refine iff_of_true ?_ (hnone.mp hkeyword)
    simpa [Operator.text] using Or.inl hinfixed
  | some c =>
    refine iff_of_false ?_ fun h =>
      Option.some_ne_none c (hkeyword.symm.trans (hnone.mpr h))
    rintro ⟨⟩
    exact (notMem_of_plain hp).2.1 ((hsome _ hkeyword).subset (by simp))

theorem ofText?_equal_spaced_iff :
    ofText? (p ++ " = " ++ v) = some ⟨p, "=", v⟩ ↔ ¬ "!=".toList <:+: v.toList := by
  have hkeyword := keyword?_spaced hp hv hneat ['='] (blankless_of_all rfl) (by decide)
  rw [if_neg (by decide)] at hkeyword
  have hcs : p.toList ++ " = ".toList ++ v.toList =
      p.toList ++ [' '] ++ (['='] ++ ([' '] ++ v.toList)) := by simp
  rw [ofText?_written hp hv hneat _ hcs]
  exact equality_iff hp hneat [' '] (List.all_eq_true.mp rfl) (by simpa using hkeyword)

theorem ofText?_equal_iff : ofText? (p ++ "=" ++ v) = some ⟨p, "=", v⟩ ↔
    ¬ Worded v.toList ∧ ¬ "!=".toList <:+: v.toList := by
  obtain ⟨hnone, hsome⟩ := keyword?_joined hp hneat ['='] (by decide)
  have hcs : p.toList ++ "=".toList ++ v.toList = p.toList ++ ['='] ++ v.toList := by simp
  rw [ofText?_written hp hv hneat _ hcs]
  cases hkeyword : keyword? (p.toList ++ ['='] ++ v.toList) with
  | none =>
    have hiff := equality_iff hp hneat [] (by simp) (by simpa using hkeyword)
    rw [and_iff_right (hnone.mp hkeyword), ← hkeyword]
    simpa using hiff
  | some c =>
    refine iff_of_false ?_ fun h =>
      Option.some_ne_none c (hkeyword.symm.trans (hnone.mpr h.1))
    rintro ⟨⟩
    exact (notMem_of_plain hp).2.1 ((hsome _ hkeyword).subset (by simp))

/-- A written criterion is read as it was meant: always with a keyword and with a spaced inequality,
and else unless an operator that is looked for first can be found in the value. -/
theorem reads_written :
    (ofText? (p ++ "=" ++ v) = some ⟨p, "=", v⟩ ↔
      ¬ Worded v.toList ∧ ¬ "!=".toList <:+: v.toList) ∧
    (ofText? (p ++ " = " ++ v) = some ⟨p, "=", v⟩ ↔ ¬ "!=".toList <:+: v.toList) ∧
    (ofText? (p ++ "!=" ++ v) = some ⟨p, "!=", v⟩ ↔ ¬ Worded v.toList) ∧
    ofText? (p ++ " != " ++ v) = some ⟨p, "!=", v⟩ ∧
    ofText? (p ++ " in " ++ v) = some ⟨p, "in", v⟩ ∧
    ofText? (p ++ " like " ++ v) = some ⟨p, "like", v⟩ :=
  ⟨ofText?_equal_iff hp hv hneat, ofText?_equal_spaced_iff hp hv hneat,
    ofText?_unequal_iff hp hv hneat, ofText?_unequal_spaced hp hv hneat,
    ofText?_keyword hp hv hneat "in" (by simp),
    ofText?_keyword hp hv hneat "like" (by simp)⟩

end Written

theorem reads_written_of_operators : Plain "errorDetail" ∧ Neat "in = like".toList ∧
    ¬ Worded "in = like".toList ∧
    ofText? "errorDetail = in = like" = some ⟨"errorDetail", "=", "in = like"⟩ ∧
    ofText? "errorDetail != in = like" = some ⟨"errorDetail", "!=", "in = like"⟩ ∧
    ofText? "errorDetail in in = like" = some ⟨"errorDetail", "in", "in = like"⟩ := by
  have hp : Plain "errorDetail" := by decide
  have hneat : Neat "in = like".toList := by decide
  obtain ⟨hjoined, hspaced, -, hunequal, hin, -⟩ := reads_written hp (by decide) hneat
  exact ⟨hp, hneat, (hjoined.mp (by decide)).1, hspaced.mpr (by decide), hunequal, hin⟩

/-- A value is torn at a word that could be an operator, or at the signs of an inequality, and its
first part is taken for a part of the path. -/
theorem value_torn : Plain "errorDetail" ∧ Neat "not in stock".toList ∧ Neat "a!=b".toList ∧
    ofText? ("errorDetail" ++ "=" ++ "not in stock") = some ⟨"errorDetail=not", "in", "stock"⟩ ∧
    ofText? ("errorDetail" ++ "!=" ++ "not in stock") = some ⟨"errorDetail!=not", "in", "stock"⟩ ∧
    ofText? ("errorDetail" ++ " = " ++ "a!=b") = some ⟨"errorDetail = a", "!=", "b"⟩ :=
  ⟨by decide, by decide, by decide, by decide, by decide, by decide⟩

end Criterion

end ContractNegotiation.Query
