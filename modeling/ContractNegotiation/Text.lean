namespace ContractNegotiation.Text

def isBlank (c : Char) : Bool := c = ' ' || ('\t' ≤ c && c ≤ '\r')

def trim (cs : List Char) : List Char :=
  ((cs.dropWhile isBlank).reverse.dropWhile isBlank).reverse

def pieces {α : Type} [DecidableEq α] (separator : α) : List α → List (List α)
  | [] => [[]]
  | c :: rest =>
    if c = separator then [] :: pieces separator rest
    else match pieces separator rest with
      | [] => [[c]]
      | piece :: others => (c :: piece) :: others

def cutAt? (mark : List Char) : List Char → Option (List Char × List Char)
  | [] => if mark.isEmpty then some ([], []) else none
  | c :: rest =>
    if mark.isPrefixOf (c :: rest) then some ([], (c :: rest).drop mark.length)
    else (cutAt? mark rest).map fun (before, after) => (c :: before, after)

def terminated (s : String) : String :=
  String.ofList (s.toList.takeWhile (· ≠ '\x00'))

def lower (cs : List Char) : List Char := cs.map Char.toLower

theorem pieces_join {α : Type} [DecidableEq α] (separator : α) (cs : List α) : ∃ first rest,
    pieces separator cs = first :: rest ∧ cs = first ++ (rest.map (separator :: ·)).flatten := by
  induction cs with
  | nil => exact ⟨[], [], rfl, rfl⟩
  | cons c cs ih =>
    obtain ⟨first, rest, hpieces, hjoin⟩ := ih
    by_cases hc : c = separator
    · exact ⟨[], first :: rest, by simp [pieces, hc, hpieces], by simpa [hc] using hjoin⟩
    · exact ⟨c :: first, rest, by simp [pieces, hc, hpieces], by simpa using hjoin⟩

theorem notMem_of_mem_pieces {α : Type} [DecidableEq α] {separator : α} {cs piece : List α}
    (h : piece ∈ pieces separator cs) : separator ∉ piece := by
  induction cs generalizing piece with
  | nil =>
    obtain rfl : piece = [] := by simpa [pieces] using h
    simp
  | cons c cs ih =>
    obtain ⟨first, rest, hpieces, -⟩ := pieces_join separator cs
    rw [hpieces] at ih
    by_cases hc : c = separator
    · simp only [pieces, hc, if_true, hpieces, List.mem_cons] at h
      rcases h with rfl | h
      · simp
      · exact ih (List.mem_cons.mpr h)
    · simp only [pieces, hc, if_false, hpieces, List.mem_cons] at h
      rcases h with rfl | h
      · simpa [Ne.symm hc] using ih List.mem_cons_self
      · exact ih (List.mem_cons_of_mem _ h)

end ContractNegotiation.Text
