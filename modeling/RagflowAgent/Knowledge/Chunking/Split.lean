import RagflowAgent.Knowledge.Domain.Failure
import RagflowAgent.Text.Tokens

/-!
# Window splitting

Both chunkers cut a text into windows of at most `limit` tokens that overlap by `overlap`
tokens.  The loop slices the text between tokens, strips the slice, and notes the number of
tokens.

* `GeneralChunker.split` and `ScenarioChunker.split` are the two loops, on fuel;
* `IsWindowing` says what the windows are, as pairs of token numbers;
* `split_windows`: one round for every token is fuel enough, and the loops return the windows,
  each with its tokens and their number.
-/

namespace RagflowAgent
namespace Knowledge
namespace Chunking

open Text

/-! ## The loops -/

namespace GeneralChunker

/-- The loop of `GeneralChunker._split`, from the token with number `start` on. -/
def splitFrom (A : Alphabet Char) (text : List Char) (matched : List (ℕ × ℕ))
    (limit overlap : ℕ) : ℕ → ℕ → Option (List (List Char × ℕ))
  | 0, _ => none
  | fuel + 1, start =>
    if start < matched.length then
      let stop := min (start + limit) matched.length
      let charStart := (matched.getD start (0, 0)).1
      let charEnd := (matched.getD (stop - 1) (0, 0)).2
      let content := A.strip (slice text charStart charEnd)
      let output := if content ≠ [] then [(content, stop - start)] else []
      if stop = matched.length then some output
      else
        (splitFrom A text matched limit overlap fuel (stop - overlap)).map fun rest =>
          output ++ rest
    else some []

/-- `GeneralChunker._split`.  The loop takes at most one round for every token. -/
def split (A : Alphabet Char) (text : List Char) (limit overlap : ℕ) :
    List (List Char × ℕ) :=
  let matched := A.spans text
  if matched = [] then []
  else (splitFrom A text matched limit overlap (matched.length + 1) 0).getD []

end GeneralChunker

namespace ScenarioChunker

/-- The loop of `ScenarioChunker._split`. -/
def splitFrom (A : Alphabet Char) (text : List Char) (matched : List (ℕ × ℕ))
    (limit overlap : ℕ) : ℕ → ℕ → Option (List (List Char × ℕ))
  | 0, _ => none
  | fuel + 1, start =>
    if start < matched.length then
      let stop := min (start + limit) matched.length
      let content := A.strip (slice text (matched.getD start (0, 0)).1
        (matched.getD (stop - 1) (0, 0)).2)
      let output := if content ≠ [] then [(content, stop - start)] else []
      if stop = matched.length then some output
      else
        (splitFrom A text matched limit overlap fuel (stop - overlap)).map fun rest =>
          output ++ rest
    else some []

/-- `ScenarioChunker._split`. -/
def split (A : Alphabet Char) (text : List Char) (limit overlap : ℕ) :
    List (List Char × ℕ) :=
  let matched := A.spans text
  if matched = [] then []
  else (splitFrom A text matched limit overlap (matched.length + 1) 0).getD []

end ScenarioChunker

/-! ## Windows -/

/-- The windows of the loop as pairs of token numbers. -/
def windowsFrom (n limit overlap : ℕ) : ℕ → ℕ → Option (List (ℕ × ℕ))
  | 0, _ => none
  | fuel + 1, start =>
    if start < n then
      if min (start + limit) n = n then some [(start, n)]
      else
        (windowsFrom n limit overlap fuel (min (start + limit) n - overlap)).map fun windows =>
          (start, min (start + limit) n) :: windows
    else some []

/-- The windows of at most `limit` of the tokens from `start` to `n`, with their overlap. -/
structure IsWindowing (start n limit overlap : ℕ) (windows : List (ℕ × ℕ)) : Prop where
  head : ∀ window ∈ windows.head?, window.1 = start
  bounds : ∀ window ∈ windows,
    window.1 < window.2 ∧ window.2 ≤ n ∧ window.2 - window.1 ≤ limit
  full : ∀ window ∈ windows, window.2 = n ∨ window.2 = window.1 + limit
  covers : ∀ i, start ≤ i → i < n → ∃ window ∈ windows, window.1 ≤ i ∧ i < window.2
  overlap_eq : windows.IsChain fun window window' => window'.1 + overlap = window.2
  progress : windows.Pairwise fun window window' =>
    window.1 < window'.1 ∧ window.2 < window'.2

section Windows

variable {n limit overlap start fuel : ℕ}

theorem windowsFrom_of_le (h : n ≤ start) :
    windowsFrom n limit overlap (fuel + 1) start = some [] := by
  rw [windowsFrom, if_neg (not_lt.2 h)]

/-- The last window. -/
theorem windowsFrom_last (h : start < n) (hlast : n ≤ start + limit) :
    windowsFrom n limit overlap (fuel + 1) start = some [(start, n)] := by
  rw [windowsFrom, if_pos h, if_pos (min_eq_right hlast)]

/-- A window with others after it. -/
theorem windowsFrom_step (h : start + limit < n) :
    windowsFrom n limit overlap (fuel + 1) start =
      (windowsFrom n limit overlap fuel (start + limit - overlap)).map fun windows =>
        (start, start + limit) :: windows := by
  rw [windowsFrom, if_pos (by omega), min_eq_left h.le, if_neg h.ne]

theorem isWindowing_nil (h : n ≤ start) : IsWindowing start n limit overlap [] where
  head := fun _ h => absurd h (Option.not_mem_none _)
  bounds := fun _ h => absurd h List.not_mem_nil
  full := fun _ h => absurd h List.not_mem_nil
  covers := fun _ hi hn => absurd (h.trans hi) (not_le.2 hn)
  overlap_eq := List.isChain_nil
  progress := List.Pairwise.nil

theorem isWindowing_singleton (h : start < n) (hlast : n ≤ start + limit) :
    IsWindowing start n limit overlap [(start, n)] where
  head := by
    intro window hwindow
    cases hwindow
    rfl
  bounds := List.forall_mem_singleton.2 ⟨h, le_rfl, by omega⟩
  full := List.forall_mem_singleton.2 (.inl rfl)
  covers := fun _ hi hn => ⟨(start, n), List.mem_singleton_self _, hi, hn⟩
  overlap_eq := List.isChain_singleton _
  progress := List.pairwise_singleton _ _

/-- **One more window.**  The next ones begin `overlap` tokens before its end. -/
theorem IsWindowing.cons {windows : List (ℕ × ℕ)} (hoverlap : overlap < limit)
    (h : start + limit < n)
    (hwindows : IsWindowing (start + limit - overlap) n limit overlap windows) :
    IsWindowing start n limit overlap ((start, start + limit) :: windows) := by
  have hlater : ∀ window ∈ windows, start + limit - overlap ≤ window.1 := by
    intro window hwindow
    cases windows with
    | nil => exact absurd hwindow List.not_mem_nil
    | cons first windows =>
      have hfirst : first.1 = start + limit - overlap := hwindows.head first rfl
      rcases List.mem_cons.1 hwindow with rfl | hwindow
      · exact hfirst.ge
      · exact hfirst.ge.trans (List.rel_of_pairwise_cons hwindows.progress hwindow).1.le
  constructor
  case head =>
    intro window hwindow
    cases hwindow
    rfl
  case bounds =>
    refine List.forall_mem_cons.2 ⟨⟨?_, h.le, ?_⟩, hwindows.bounds⟩
    · change start < start + limit
      omega
    · change start + limit - start ≤ limit
      omega
  case full =>
    exact List.forall_mem_cons.2 ⟨.inr rfl, hwindows.full⟩
  case covers =>
    intro i hi hn
    by_cases hfirst : i < start + limit
    · exact ⟨(start, start + limit), List.mem_cons_self, hi, hfirst⟩
    · obtain ⟨window, hmem, hwindow⟩ := hwindows.covers i (by omega) hn
      exact ⟨window, List.mem_cons_of_mem _ hmem, hwindow⟩
  case overlap_eq =>
    refine List.isChain_cons.2 ⟨fun window hwindow => ?_, hwindows.overlap_eq⟩
    change window.1 + overlap = start + limit
    rw [hwindows.head window hwindow]
    omega
  case progress =>
    refine List.pairwise_cons.2 ⟨fun window hwindow => ?_, hwindows.progress⟩
    have hstart := hlater window hwindow
    -- A later window that does not end with the text is full.
    have hend : start + limit < window.2 := by
      rcases hwindows.full window hwindow with hlast | hfull
      · rw [hlast]
        exact h
      · omega
    exact ⟨by change start < window.1; omega, hend⟩

/-- **The loop ends, with the windows.** -/
theorem exists_windowsFrom (hoverlap : overlap < limit) (start : ℕ) :
    ∃ windows, IsWindowing start n limit overlap windows ∧
      ∀ fuel, n - start < fuel → windowsFrom n limit overlap fuel start = some windows := by
  induction hd : n - start using Nat.strong_induction_on generalizing start with
  | _ d ih =>
    by_cases hstart : n ≤ start
    · refine ⟨[], isWindowing_nil hstart, fun fuel hfuel => ?_⟩
      obtain ⟨fuel, rfl⟩ := Nat.exists_eq_succ_of_ne_zero (Nat.ne_zero_of_lt hfuel)
      exact windowsFrom_of_le hstart
    rw [not_le] at hstart
    by_cases hlast : n ≤ start + limit
    · refine ⟨[(start, n)], isWindowing_singleton hstart hlast, fun fuel hfuel => ?_⟩
      obtain ⟨fuel, rfl⟩ := Nat.exists_eq_succ_of_ne_zero (Nat.ne_zero_of_lt hfuel)
      exact windowsFrom_last hstart hlast
    rw [not_le] at hlast
    -- The next window begins further on, since the overlap is less than the limit.
    have hless : n - (start + limit - overlap) < d := by omega
    obtain ⟨windows, hwindows, hrun⟩ := ih _ hless (start + limit - overlap) rfl
    refine ⟨_, hwindows.cons hoverlap hlast, fun fuel hfuel => ?_⟩
    obtain ⟨fuel, rfl⟩ := Nat.exists_eq_succ_of_ne_zero (Nat.ne_zero_of_lt hfuel)
    rw [windowsFrom_step hlast, hrun fuel (by omega)]
    rfl

end Windows

/-! ## The result -/

section Split

variable {A : Alphabet Char} {text : List Char} {limit overlap : ℕ}

/-- The slice of a window, with the number of its tokens. -/
def windowOf (A : Alphabet Char) (text : List Char) (window : ℕ × ℕ) : List Char × ℕ :=
  (slice text ((A.spans text).getD window.1 (0, 0)).1
    ((A.spans text).getD (window.2 - 1) (0, 0)).2, window.2 - window.1)

/-- The content of a window is not stripped any further, and is not left out. -/
theorem output_windowOf {start stop : ℕ} (h : start < stop) (hstop : stop ≤ (A.spans text).length) :
    let content := A.strip (slice text ((A.spans text).getD start (0, 0)).1
      ((A.spans text).getD (stop - 1) (0, 0)).2)
    (if content ≠ [] then [(content, stop - start)] else []) =
      [windowOf A text (start, stop)] := by
  rw [A.length_spans] at hstop
  obtain ⟨-, hstrip, hne⟩ := A.tokens_slice text h hstop
  intro content
  have hcontent : content = (windowOf A text (start, stop)).1 := hstrip
  have hcontentNe : content ≠ [] := hcontent ▸ hne
  rw [if_pos hcontentNe, hcontent]
  rfl

/-- The loop of the general chunker makes its windows. -/
theorem GeneralChunker.splitFrom_eq (hlimit : 1 ≤ limit) (fuel start : ℕ) :
    GeneralChunker.splitFrom A text (A.spans text) limit overlap fuel start =
      (windowsFrom (A.spans text).length limit overlap fuel start).map fun windows =>
        windows.map (windowOf A text) := by
  induction fuel generalizing start with
  | zero => rfl
  | succ fuel ih =>
    rw [GeneralChunker.splitFrom, windowsFrom]
    by_cases hstart : start < (A.spans text).length
    · rw [if_pos hstart, if_pos hstart]
      dsimp only
      rw [output_windowOf (lt_min (by omega) hstart) (min_le_right _ _)]
      by_cases hlast : min (start + limit) (A.spans text).length = (A.spans text).length
      · rw [if_pos hlast, if_pos hlast, hlast]
        rfl
      · rw [if_neg hlast, if_neg hlast, ih, Option.map_map, Option.map_map]
        rfl
    · rw [if_neg hstart, if_neg hstart]
      rfl

/-- The two loops are the same. -/
theorem ScenarioChunker.splitFrom_eq (matched : List (ℕ × ℕ)) (fuel start : ℕ) :
    ScenarioChunker.splitFrom A text matched limit overlap fuel start =
      GeneralChunker.splitFrom A text matched limit overlap fuel start := by
  induction fuel generalizing start with
  | zero => rfl
  | succ fuel ih =>
    rw [ScenarioChunker.splitFrom, GeneralChunker.splitFrom]
    dsimp only
    rw [ih]

theorem ScenarioChunker.split_eq (A : Alphabet Char) (text : List Char) (limit overlap : ℕ) :
    ScenarioChunker.split A text limit overlap = GeneralChunker.split A text limit overlap := by
  rw [ScenarioChunker.split, GeneralChunker.split, ScenarioChunker.splitFrom_eq]

/-- The chunk is the part of the text with the tokens of the window, and counts them. -/
structure IsWindowOf (A : Alphabet Char) (text : List Char) (window : ℕ × ℕ)
    (chunk : List Char × ℕ) : Prop where
  isInfix : chunk.1 <:+: text
  tokens_eq : A.tokens chunk.1 = ((A.tokens text).drop window.1).take (window.2 - window.1)
  count_eq : chunk.2 = (A.tokens chunk.1).length
  count_eq_sub : chunk.2 = window.2 - window.1

theorem isWindowOf_windowOf {window : ℕ × ℕ} (h : window.1 < window.2)
    (hstop : window.2 ≤ (A.tokens text).length) :
    IsWindowOf A text window (windowOf A text window) := by
  have htokens := (A.tokens_slice text h hstop).tokens_eq
  refine ⟨(List.take_prefix _ _).isInfix.trans (List.drop_suffix _ _).isInfix, htokens, ?_, rfl⟩
  change window.2 - window.1 = (A.tokens (slice text _ _)).length
  rw [htokens, List.length_take, List.length_drop]
  omega

/-- **The loop returns the windows.** -/
theorem exists_isWindowing (A : Alphabet Char) (text : List Char) (hoverlap : overlap < limit) :
    ∃ windows, IsWindowing 0 (A.tokens text).length limit overlap windows ∧
      (∀ fuel, (A.tokens text).length < fuel →
        GeneralChunker.splitFrom A text (A.spans text) limit overlap fuel 0 =
          some (windows.map (windowOf A text))) ∧
      GeneralChunker.split A text limit overlap = windows.map (windowOf A text) := by
  obtain ⟨windows, hwindows, hrun⟩ :=
    exists_windowsFrom (n := (A.tokens text).length) hoverlap 0
  have hloop : ∀ fuel, (A.tokens text).length < fuel →
      GeneralChunker.splitFrom A text (A.spans text) limit overlap fuel 0 =
        some (windows.map (windowOf A text)) := by
    intro fuel hfuel
    rw [GeneralChunker.splitFrom_eq (by omega), A.length_spans, hrun fuel (by omega)]
    rfl
  refine ⟨windows, hwindows, hloop, ?_⟩
  rw [GeneralChunker.split]
  by_cases hnil : A.spans text = []
  · have hlength : (A.tokens text).length = 0 := by rw [← A.length_spans, hnil]; rfl
    have hempty : windows = [] := by
      refine List.eq_nil_iff_forall_not_mem.2 fun window hwindow => ?_
      have hbounds := hwindows.bounds window hwindow
      omega
    rw [if_pos hnil, hempty]
    rfl
  · rw [if_neg hnil, A.length_spans, hloop _ (Nat.lt_succ_self _)]
    rfl

/-- Every token is in a window. -/
theorem exists_mem_split {t : List Char} (hoverlap : overlap < limit) (ht : t ∈ A.tokens text) :
    ∃ chunk ∈ GeneralChunker.split A text limit overlap, t ∈ A.tokens chunk.1 := by
  obtain ⟨windows, hwindows, -, hsplit⟩ := exists_isWindowing A text hoverlap
  obtain ⟨i, hi, rfl⟩ := List.getElem_of_mem ht
  obtain ⟨window, hmem, hstart, hstop⟩ := hwindows.covers i (Nat.zero_le i) hi
  have hbounds := hwindows.bounds window hmem
  have htokens := (isWindowOf_windowOf hbounds.1 hbounds.2.1).tokens_eq
  refine ⟨windowOf A text window, hsplit ▸ List.mem_map_of_mem hmem, ?_⟩
  rw [htokens]
  refine List.mem_of_getElem? (i := i - window.1) ?_
  have hplace : window.1 + (i - window.1) = i := by omega
  rw [List.getElem?_take_of_lt (by omega), List.getElem?_drop, hplace, List.getElem?_eq_getElem hi]

theorem split_of_tokens_eq_nil (h : A.tokens text = []) :
    GeneralChunker.split A text limit overlap = [] := by
  have hspans : A.spans text = [] := by
    rw [← List.length_eq_zero_iff, A.length_spans, h]
    rfl
  rw [GeneralChunker.split, if_pos hspans]

/-- A window has only tokens of the text, and is not stripped any further. -/
theorem stretch_of_mem_split {chunk : List Char × ℕ} (hoverlap : overlap < limit)
    (hchunk : chunk ∈ GeneralChunker.split A text limit overlap) :
    (∀ t ∈ A.tokens chunk.1, t ∈ A.tokens text) ∧ A.strip chunk.1 = chunk.1 ∧ chunk.1 ≠ [] := by
  obtain ⟨windows, hwindows, -, hsplit⟩ := exists_isWindowing A text hoverlap
  rw [hsplit] at hchunk
  obtain ⟨window, hmem, rfl⟩ := List.mem_map.1 hchunk
  have hbounds := hwindows.bounds window hmem
  have hstretch := A.tokens_slice text hbounds.1 hbounds.2.1
  refine ⟨fun t ht => ?_, hstretch.strip_eq, hstretch.ne_nil⟩
  rw [(isWindowOf_windowOf hbounds.1 hbounds.2.1).tokens_eq] at ht
  exact List.mem_of_mem_drop (List.mem_of_mem_take ht)

/-- **Window splitting covers the text with exact overlap.**  The loop returns on every fuel
above the number of tokens.  Its windows begin with the first token, cover all of them, and
proceed; each but the first begins `overlap` tokens before the end of the one before it; each
has its tokens and their number.  The scenario chunker splits likewise. -/
theorem split_windows (A : Alphabet Char) (text : List Char) (limit overlap : ℕ)
    (hoverlap : overlap < limit) :
    ∃ windows, IsWindowing 0 (A.tokens text).length limit overlap windows ∧
      (∀ fuel, (A.tokens text).length < fuel →
        GeneralChunker.splitFrom A text (A.spans text) limit overlap fuel 0 =
          some (GeneralChunker.split A text limit overlap)) ∧
      List.Forall₂ (IsWindowOf A text) windows (GeneralChunker.split A text limit overlap) ∧
      ScenarioChunker.split A text limit overlap = GeneralChunker.split A text limit overlap := by
  obtain ⟨windows, hwindows, hloop, hsplit⟩ := exists_isWindowing A text hoverlap
  refine ⟨windows, hwindows, ?_, ?_, ScenarioChunker.split_eq A text limit overlap⟩
  · rw [hsplit]
    exact hloop
  · rw [hsplit, List.forall₂_map_right_iff]
    refine List.forall₂_same.2 fun window hwindow => ?_
    have hbounds := hwindows.bounds window hwindow
    exact isWindowOf_windowOf hbounds.1 hbounds.2.1

end Split

namespace Sample

/-- Letters, digits and the underscore make words. -/
def latin : Alphabet Char where
  isWord c := !isWhiteSpace c && (c.isAlphanum || c == '_')
  isSpace := isWhiteSpace
  disjoint := fun c h => by
    rw [Bool.and_eq_true, Bool.not_eq_true'] at h
    exact h.1

end Sample

/-- Four tokens in windows of two. -/
theorem split_windows_four :
    (GeneralChunker.split Sample.latin "a-b c".toList 2 1).map Prod.fst =
        ["a-".toList, "-b".toList, "b c".toList] ∧
      ∃ windows, IsWindowing 0 (Sample.latin.tokens "a-b c".toList).length 2 1 windows := by
  refine ⟨by decide +kernel, ?_⟩
  obtain ⟨windows, hwindows, -⟩ :=
    split_windows Sample.latin "a-b c".toList 2 1 Nat.one_lt_two
  exact ⟨windows, hwindows⟩

end Chunking
end Knowledge
end RagflowAgent
