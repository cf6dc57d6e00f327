/-!
# Line separators

Two cuts of a text into lines. `lines` cuts at any of ten separators, with
carriage return and line feed together as one, and drops the separators: this
is how a block of commands is taken apart before it is sent. `splitFeeds` cuts
after line feeds only and keeps them: this is how the output of a process is
handed on, after its other line ends have become line feeds on the way.
-/

namespace SmtDialogue.Text

/-- Whether a character ends a line: line feed, vertical tab, form feed,
carriage return, the separators U+001C to U+001E, next line, and the line and
paragraph separators. The unit separator U+001F does not. -/
def isLineBreak (c : Char) : Bool :=
  let n := c.toNat
  (10 ≤ n && n ≤ 13) || (28 ≤ n && n ≤ 30) || n == 0x85 || n == 0x2028 || n == 0x2029

/-- The lines of the characters, given the piece of the current line that has
been read, last character first. A separator at the very end opens no further
line. -/
def cutLines (piece : List Char) : List Char → List (List Char)
  | [] => if piece.isEmpty then [] else [piece.reverse]
  | '\r' :: '\n' :: rest => piece.reverse :: cutLines [] rest
  | c :: rest =>
    if isLineBreak c then piece.reverse :: cutLines [] rest else cutLines (c :: piece) rest

/-- The lines of a text, without their separators. -/
def lines (s : String) : List String :=
  (cutLines [] s.toList).map String.ofList

/-- The pieces of the characters that end in a line feed, and the rest after
the last line feed; `piece` is what has been read of the current one, last
character first. -/
def cutFeeds (piece : List Char) : List Char → List (List Char) × List Char
  | [] => ([], piece.reverse)
  | '\n' :: rest =>
    let (full, last) := cutFeeds [] rest
    ((('\n' :: piece).reverse) :: full, last)
  | c :: rest => cutFeeds (c :: piece) rest

/-- The lines of a text that end in a line feed, each with it, and the
unfinished rest. -/
def splitFeeds (s : String) : List String × String :=
  let (full, last) := cutFeeds [] s.toList
  (full.map String.ofList, String.ofList last)

/-- Text without any separator is one line, or none when it is empty. -/
theorem cutLines_of_forall_not {cs : List Char} (piece : List Char)
    (h : ∀ c ∈ cs, isLineBreak c = false) :
    cutLines piece cs = if (piece.reverse ++ cs).isEmpty then [] else [piece.reverse ++ cs] := by
  induction cs generalizing piece with
  | nil => cases piece <;> simp [cutLines]
  | cons c cs ih =>
    have hc : isLineBreak c = false := h c (by simp)
    have hr : c ≠ '\r' := by rintro rfl; simp [isLineBreak] at hc
    have := ih (c :: piece) (fun d hd => h d (by simp [hd]))
    rw [cutLines]
    · simp [hc, this]
    · intro rest hcr; exact absurd hcr hr

/-- No part of the output is lost by the cut at line feeds. -/
theorem cutFeeds_append (piece cs : List Char) :
    (cutFeeds piece cs).1.flatten ++ (cutFeeds piece cs).2 = piece.reverse ++ cs := by
  induction cs generalizing piece with
  | nil => simp [cutFeeds]
  | cons c cs ih =>
    by_cases hc : c = '\n'
    · subst hc; simpa [cutFeeds] using ih []
    · rw [cutFeeds]
      · simpa using ih (c :: piece)
      · exact fun h => hc h

/-- **Output may arrive in pieces**: what a line feed has not ended yet is the
begun piece for what follows. -/
theorem cutFeeds_of_append (piece cs ds : List Char) :
    cutFeeds piece (cs ++ ds) =
      ((cutFeeds piece cs).1 ++ (cutFeeds (cutFeeds piece cs).2.reverse ds).1,
        (cutFeeds (cutFeeds piece cs).2.reverse ds).2) := by
  induction cs generalizing piece with
  | nil => simp [cutFeeds]
  | cons c cs ih =>
    by_cases hc : c = '\n'
    · subst hc
      rw [List.cons_append, cutFeeds, cutFeeds, ih []]
      rfl
    · have other (rest : List Char) : cutFeeds piece (c :: rest) = cutFeeds (c :: piece) rest := by
        rw [cutFeeds]
        exact fun h => hc h
      rw [List.cons_append, other, other, ih (c :: piece)]

/-- Each piece ends in its line feed. -/
theorem getLast?_of_mem_cutFeeds {piece cs full : List Char} (h : full ∈ (cutFeeds piece cs).1) :
    full.getLast? = some '\n' := by
  induction cs generalizing piece with
  | nil => cases h
  | cons c cs ih =>
    by_cases hc : c = '\n'
    · subst hc
      rw [cutFeeds] at h
      rcases List.mem_cons.1 h with rfl | h
      · simp
      · exact ih h
    · rw [cutFeeds] at h
      · exact ih h
      · exact fun h => hc h

theorem getLast?_of_mem_splitFeeds {s line : String} (h : line ∈ (splitFeeds s).1) :
    line.toList.getLast? = some '\n' := by
  obtain ⟨full, here, rfl⟩ := List.mem_map.1 h
  rw [String.toList_ofList]
  exact getLast?_of_mem_cutFeeds here

/-- Whole lines and more are the whole lines and the lines of the rest. -/
theorem splitFeeds_append {s : String} (ended : (splitFeeds s).2 = "") (t : String) :
    splitFeeds (s ++ t) = ((splitFeeds s).1 ++ (splitFeeds t).1, (splitFeeds t).2) := by
  have none : (cutFeeds [] s.toList).2 = [] := by
    rw [← String.toList_ofList (l := (cutFeeds [] s.toList).2)]
    exact congrArg String.toList ended
  show ((cutFeeds [] (s ++ t).toList).1.map _, _) = _
  rw [String.toList_append, cutFeeds_of_append, none, List.map_append]
  rfl

/-- A text that ends in a line feed is cut into whole lines. -/
theorem splitFeeds_of_getLast? {s : String} (h : s.toList.getLast? = some '\n') :
    (splitFeeds s).2 = "" := by
  obtain ⟨cs, split⟩ := List.getLast?_eq_some_iff.1 h
  show String.ofList (cutFeeds [] s.toList).2 = ""
  rw [split, cutFeeds_of_append]
  rfl

end SmtDialogue.Text
