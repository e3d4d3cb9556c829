import RagflowAgent.Agent.Application.ToolPolicy
import RagflowAgent.Agent.Domain.Credentials

/-!
# Redaction

What `_redact` and `redact_secret_like_text` take away.

* `redactSecretLikeText_redactSecretLikeText`: redacting a text again changes nothing, because a
  match in the result is a match in the text or one that was replaced;
* `Within` are the values inside a value, and `of_within_redact` says that nothing but the marker
  is left under a sensitive key;
* `Survives` tells which characters of a text a redaction copies, `Mention` is a keyword with a
  credential anywhere in a text, and `Mention.survives_iff` says when nothing of the credential
  survives;
* `redaction` draws the conclusion.
-/

namespace RagflowAgent
namespace Agent

open Text Text.Pattern

/-! ## Redacting twice -/

section Twice

variable {host : Host} {before : Option Char} {text : List Char} {segments : List Segment}

/-- What the steps of a redaction write, up to the first credential. -/
theorem Redacts.written_cases (h : Redacts host before text segments) :
    segments.flatMap (Segment.replaced blanked) = text ∨
      ∃ front name gap run rest written, text = front ++ name ++ (gap ++ run) ++ rest ∧
        segments.flatMap (Segment.replaced blanked) =
          front ++ name ++ ("=[REDACTED]".toList ++ written) ∧
        keywords.Language name ∧ IsGap gap ∧ run ≠ [] ∧ ∀ c ∈ run, isCredential c = true := by
  induction h with
  | nil => exact .inl rfl
  | @copied before c rest segments hnone tail ih =>
    rw [List.flatMap_cons]
    rcases ih with ih | ⟨front, name, gap, run, rest', written, rfl, ih, hrest⟩
    · exact .inl (by rw [ih]; rfl)
    · refine .inr ⟨c :: front, name, gap, run, rest', written, rfl, ?_, hrest⟩
      rw [ih]
      rfl
  | @found before text name gap run rest segments hoccurs tail ih =>
    refine .inr ⟨[], name, gap, run, rest, segments.flatMap (Segment.replaced blanked),
      hoccurs.text_eq, ?_, hoccurs.keyword.1, hoccurs.isGap, hoccurs.run_ne_nil,
      hoccurs.run_credential⟩
    rw [List.flatMap_cons, Segment.replaced, blanked, List.append_assoc, List.nil_append]

/-- A text in which a gap and a credential follow a keyword. -/
def Mentions (text : List Char) (w : List Char) : Prop :=
  ∃ gap c rest, text = w ++ gap ++ c :: rest ∧ IsGap gap ∧ isCredential c = true

/-- What is mentioned at the beginning of the result is mentioned at the beginning of the text. -/
theorem Mentions.of_written {front name gap run rest written w : List Char}
    (hname : keywords.Language name) (hgap : IsGap gap) (hne : run ≠ [])
    (hrun : ∀ c ∈ run, isCredential c = true) (hw : keywords.Language w)
    (h : Mentions (front ++ name ++ ("=[REDACTED]".toList ++ written)) w) :
    Mentions (front ++ name ++ (gap ++ run) ++ rest) w := by
  obtain ⟨gap', c, rest', heq, hgap', hc⟩ := h
  -- the last character of the keyword that was kept
  obtain ⟨-, last, hlast, hlastSpace⟩ := isSpace_ends_keyword hname
  have hlastSeparator := (of_mem_keyword hname (List.mem_of_mem_getLast? hlast)).1
  have hnot : ∀ d ∈ gap', d ≠ last := by
    rintro d hd rfl
    rcases hgap'.of_mem hd with hspace | hseparator
    · rw [hlastSpace] at hspace
      cases hspace
    · rw [hlastSeparator] at hseparator
      cases hseparator
  have hfront : ∀ u v, front ++ name = u ++ v → v ≠ [] → last ∈ v := by
    intro u v heq hv
    have hends := congrArg List.getLast? heq
    rw [List.getLast?_append, hlast, Option.some_or, List.getLast?_append_of_ne_nil _ hv] at hends
    exact List.mem_of_getLast? hends.symm
  -- the keyword is the one that was kept
  have hkept : w = front ++ name → Mentions (front ++ name ++ (gap ++ run) ++ rest) w := by
    rintro rfl
    obtain ⟨d, run, rfl⟩ := List.exists_cons_of_ne_nil hne
    exact ⟨gap, d, run ++ rest, by simp, hgap, hrun d (by simp)⟩
  rcases List.append_eq_append_iff.1 heq with ⟨tail, hmention, hwritten⟩ | ⟨tail, hcommon, hrest⟩
  · rcases List.append_eq_append_iff.1 hmention with ⟨inner, hinner, hgaps⟩ |
      ⟨inner, hinner, hgaps⟩
    · by_cases hnil : inner = []
      · subst hnil
        exact hkept (by rw [hinner, List.append_nil])
      · have hmem := hfront w inner hinner hnil
        exact absurd rfl (hnot last (by rw [hgaps]; exact List.mem_append_left _ hmem))
    · cases inner with
      | nil => exact hkept (by rw [hinner, List.append_nil])
      | cons d inner =>
        -- the keyword would have the equals sign
        rw [hgaps] at hwritten
        obtain rfl : '=' = d := (List.cons.inj hwritten).1
        have hseparator := (of_mem_keyword hw (c := '=') (by rw [hinner]; simp)).1
        exact absurd hseparator (by decide)
  · cases tail with
    | nil =>
      rw [List.append_nil] at hcommon
      exact absurd rfl (hnot last (hfront w gap' hcommon hgap'.ne_nil))
    | cons d tail =>
      obtain rfl : c = d := (List.cons.inj hrest).1
      exact ⟨gap', c, tail ++ (gap ++ run) ++ rest, by rw [hcommon]; simp, hgap', hc⟩

/-- Something occurs at the beginning of a text exactly when a keyword is mentioned there. -/
theorem exists_occurs_iff {host : Host} {before : Option Char} {text : List Char} :
    (∃ name gap run rest, Occurs host before text name gap run rest) ↔
      ∃ w, Keyword host before w ∧ Mentions text w := by
  constructor
  · rintro ⟨name, gap, run, rest, rfl, hkeyword, hgap, hne, hrun, -⟩
    obtain ⟨c, run, rfl⟩ := List.exists_cons_of_ne_nil hne
    exact ⟨name, hkeyword, gap, c, run ++ rest, by simp, hgap, hrun c (by simp)⟩
  · rintro ⟨w, hkeyword, gap, c, rest, rfl, hgap, hc⟩
    refine ⟨w, gap, c :: rest.takeWhile isCredential, rest.dropWhile isCredential,
      by simp, hkeyword, hgap, List.cons_ne_nil _ _, List.forall_mem_cons.2 ⟨hc, fun d hd => ?_⟩,
      fun d hd => ?_⟩
    · exact List.all_eq_true.1 List.all_takeWhile d hd
    · have hhead := List.head?_dropWhile_not isCredential rest
      rwa [Option.mem_def.1 hd] at hhead

/-- Where nothing is mentioned in the text, nothing is mentioned in the result. -/
theorem Redacts.not_occurs (h : Redacts host before text segments)
    (hnone : ∀ name gap run rest, ¬ Occurs host before text name gap run rest)
    (name gap run rest : List Char) :
    ¬ Occurs host before (segments.flatMap (Segment.replaced blanked)) name gap run rest := by
  intro hoccurs
  obtain ⟨w, hkeyword, hmentions⟩ := exists_occurs_iff.1 ⟨_, _, _, _, hoccurs⟩
  have htext : Mentions text w := by
    rcases h.written_cases with heq | ⟨front, kept, gap', run', rest', written, rfl, hwritten,
      hkept, hgap', hne, hrun⟩
    · rwa [heq] at hmentions
    · rw [hwritten] at hmentions
      exact Mentions.of_written hkept hgap' hne hrun hkeyword.1 hmentions
  obtain ⟨name', gap', run', rest', hinput⟩ := exists_occurs_iff.2 ⟨w, hkeyword, htext⟩
  exact hnone _ _ _ _ hinput

/-- **A redacted text is left as it is**; what stands before it matters only if it begins with
a character that a keyword can begin with. -/
theorem Redacts.subFrom_eq_self (h : Redacts host before text segments) {before' : Option Char}
    (hbefore : before' = before ∨ ∀ c ∈ text.head?, isCredential c = false) :
    subFrom (secretName host) secretValue blanked 0 before'
        (segments.flatMap (Segment.replaced blanked)) =
      segments.flatMap (Segment.replaced blanked) := by
  induction h generalizing before' with
  | nil => rfl
  | @copied before c rest segments hnone tail ih =>
    have hwritten := (Redacts.copied hnone tail).not_occurs hnone
    rw [List.flatMap_cons, Segment.replaced, List.singleton_append] at hwritten ⊢
    have hnone' : firstMatch (secretName host) secretValue
        ⟨before', c :: segments.flatMap (Segment.replaced blanked)⟩ = none := by
      rw [firstMatch_eq_none_iff_not_occurs]
      rcases hbefore with rfl | hhead
      · exact hwritten
      · -- no keyword begins with this character
        intro name gap run rest' hoccurs
        obtain ⟨d, hd, hcredential⟩ := hoccurs.head_credential
        rw [hhead d hd] at hcredential
        cases hcredential
    rw [subFrom, hnone']
    dsimp only
    rw [ih (.inl rfl)]
  | @found before text name gap run rest segments hoccurs tail ih =>
    have hrest : ∀ c ∈ (segments.flatMap (Segment.replaced blanked)).head?,
        isCredential c = false := by
      cases tail with
      | nil => exact fun c hc => absurd hc (by simp)
      | copied hnone tail =>
        intro d hd
        exact hoccurs.rest_head d hd
      | found hoccurs' tail =>
        -- a keyword cannot follow at once
        obtain ⟨d, hd, hcredential⟩ := hoccurs'.head_credential
        have hnot := hoccurs.rest_head d hd
        rw [hcredential] at hnot
        cases hnot
    have hbefore' : before' = before := by
      obtain ⟨d, hd, hcredential⟩ := hoccurs.head_credential
      refine hbefore.resolve_right fun hnot => ?_
      rw [hnot d hd] at hcredential
      cases hcredential
    subst hbefore'
    rw [List.flatMap_cons, Segment.replaced, blanked, show "=[REDACTED]".toList =
      "=".toList ++ "[REDACTED]".toList from rfl]
    have hwritten : Occurs host before' (name ++ ("=".toList ++ "[REDACTED]".toList) ++
        segments.flatMap (Segment.replaced blanked)) name "=".toList "[REDACTED]".toList
        (segments.flatMap (Segment.replaced blanked)) :=
      ⟨rfl, hoccurs.keyword, ⟨[], '=', [], rfl, by simp, rfl, by simp⟩, by decide,
        List.all_eq_true.1 (by decide), hrest⟩
    rw [subFrom_eq_flatMap, segmentsFrom_of_firstMatch (firstMatch_of_occurs hwritten) rfl rfl
      (List.append_ne_nil_of_left_ne_nil (keyword_ne_nil hoccurs.keyword.1) _),
      List.flatMap_cons, ← subFrom_eq_flatMap, ih (.inr hoccurs.rest_head)]
    rfl

/-- **Redacting a text again** changes nothing. -/
theorem redactSecretLikeText_redactSecretLikeText (host : Host) (value : String) :
    redactSecretLikeText host (redactSecretLikeText host value) =
      redactSecretLikeText host value := by
  apply String.toList_inj.1
  have hself := (redacts host value.toList).subFrom_eq_self (.inl rfl)
  rw [← toList_redactSecretLikeText] at hself
  rw [redactSecretLikeText, sub, String.toList_ofList]
  exact hself

end Twice

/-! ## Sensitive keys -/

section Keys

variable {host : Host} {fields : List String}

mutual

theorem redact_redact (value : Json) :
    redact host fields (redact host fields value) = redact host fields value :=
  match value with
  | .dict entries => by rw [redact, redact, redactEntries_redactEntries entries]
  | .list items => by rw [redact, redact, redactItems_redactItems items]
  | .str value => by rw [redact, redact, redactSecretLikeText_redactSecretLikeText]
  | .null => rfl
  | .bool _ => rfl
  | .int _ => rfl
  | .float _ => rfl

theorem redactItems_redactItems (items : List Json) :
    redactItems host fields (redactItems host fields items) = redactItems host fields items :=
  match items with
  | [] => rfl
  | item :: items => by
    rw [redactItems, redactItems, redact_redact item, redactItems_redactItems items]

theorem redactEntries_redactEntries (entries : List (String × Json)) :
    redactEntries host fields (redactEntries host fields entries) =
      redactEntries host fields entries :=
  match entries with
  | [] => rfl
  | (key, child) :: entries => by
    rw [redactEntries, redactEntries, redactEntries_redactEntries entries]
    split
    · rfl
    · rw [redact_redact child]

end

/-- `inner` is found in a value, at any depth. -/
inductive Within (inner : Json) : Json → Prop
  | self : Within inner inner
  | item {items : List Json} {item : Json} (hitem : item ∈ items) (h : Within inner item) :
      Within inner (.list items)
  | entry {entries : List (String × Json)} {entry : String × Json} (hentry : entry ∈ entries)
      (h : Within inner entry.2) : Within inner (.dict entries)

/-- The marker stands under every sensitive key. -/
def Marked (host : Host) (fields : List String) (entries : List (String × Json)) : Prop :=
  ∀ entry ∈ entries, host.lower entry.1 ∈ fields.map host.lower →
    entry.2 = .str "[REDACTED]"

mutual

/-- **Nothing but the marker** is left under a sensitive key. -/
theorem of_within_redact (value : Json) {entries : List (String × Json)}
    (h : Within (.dict entries) (redact host fields value)) : Marked host fields entries :=
  match value with
  | .dict inner => by
    rw [redact] at h
    have hmarked := of_within_redactEntries inner
    cases h with
    | self => exact fun entry hentry => (hmarked entry hentry).1
    | entry hentry h => exact (hmarked _ hentry).2 h
  | .list items => by
    rw [redact] at h
    cases h with
    | item hitem h => exact of_within_redactItems items _ hitem h
  | .str _ => by
    rw [redact] at h
    cases h
  | .null => by cases h
  | .bool _ => by cases h
  | .int _ => by cases h
  | .float _ => by cases h

theorem of_within_redactItems (items : List Json) (item : Json)
    (hitem : item ∈ redactItems host fields items) {entries : List (String × Json)}
    (h : Within (.dict entries) item) : Marked host fields entries :=
  match items with
  | [] => by
    rw [redactItems] at hitem
    exact absurd hitem List.not_mem_nil
  | first :: items => by
    rw [redactItems, List.mem_cons] at hitem
    rcases hitem with rfl | hitem
    · exact of_within_redact first h
    · exact of_within_redactItems items item hitem h

theorem of_within_redactEntries (entries : List (String × Json)) (entry : String × Json)
    (hentry : entry ∈ redactEntries host fields entries) :
    (host.lower entry.1 ∈ fields.map host.lower → entry.2 = .str "[REDACTED]") ∧
      ∀ {inner : List (String × Json)}, Within (.dict inner) entry.2 → Marked host fields inner :=
  match entries with
  | [] => by
    rw [redactEntries] at hentry
    exact absurd hentry List.not_mem_nil
  | (key, child) :: entries => by
    rw [redactEntries, List.mem_cons] at hentry
    rcases hentry with rfl | hentry
    · constructor
      · intro hsensitive
        exact if_pos (List.contains_iff_mem.2 hsensitive)
      · intro inner h
        dsimp only at h
        split at h
        · cases h
        · exact of_within_redact child h
    · exact of_within_redactEntries entries entry hentry

end

end Keys

/-! ## What survives -/

/-- Which characters of a text a step leaves in the result. -/
def marks : Segment → List Bool
  | .copied _ => [true]
  | .found name value => name.map (fun _ => true) ++ value.map fun _ => false

/-- The `i`-th character of a text is left in the result of its redaction. -/
def Survives (host : Host) (text : List Char) (i : ℕ) : Prop :=
  ((redactionSteps host text).flatMap marks)[i]? = some true

/-- The places of a text where the redactor begins to look for a keyword: all that are not inside
something that occurs. -/
inductive Stops (host : Host) : Option Char → List Char → List Char → Prop
  | here {before : Option Char} {rest : List Char} : Stops host before [] rest
  | step {before : Option Char} {c : Char} {front rest : List Char}
      (hnone : ∀ name gap run rest', ¬ Occurs host before (c :: front ++ rest) name gap run rest')
      (tail : Stops host (some c) front rest) : Stops host before (c :: front) rest
  | jump {before : Option Char} {name gap run front rest : List Char}
      (hoccurs : Occurs host before (name ++ (gap ++ run) ++ (front ++ rest)) name gap run
        (front ++ rest))
      (tail : Stops host (behind before (name ++ (gap ++ run))) front rest) :
      Stops host before (name ++ (gap ++ run) ++ front) rest

section Survival

variable {host : Host} {before : Option Char} {text : List Char} {segments : List Segment}

/-- No mark is left from one place to another. -/
def Blank (marks : List Bool) (start stop : ℕ) : Prop :=
  ∀ i, start ≤ i → i < stop → marks[i]? ≠ some true

theorem length_marks (segment : Segment) : (marks segment).length = segment.source.length := by
  cases segment <;> simp [marks, Segment.source]

/-- What is left behind a step does not depend on the step. -/
theorem blank_cons_iff (segment : Segment) {start stop start' stop' : ℕ}
    (hstart : start' = segment.source.length + start)
    (hstop : stop' = segment.source.length + stop) :
    Blank ((segment :: segments).flatMap marks) start' stop' ↔
      Blank (segments.flatMap marks) start stop := by
  rw [← length_marks] at hstart hstop
  subst hstart hstop
  rw [List.flatMap_cons]
  constructor
  · intro h i hstart hstop
    have hi := h ((marks segment).length + i) (by omega) (by omega)
    rwa [List.getElem?_append_right (by omega), Nat.add_sub_cancel_left] at hi
  · intro h i hstart hstop
    rw [List.getElem?_append_right (by omega)]
    exact h (i - (marks segment).length) (by omega) (by omega)

/-- **A character at which the redactor arrives** without a match before is left. -/
theorem Redacts.getElem?_marks (h : Redacts host before text segments) {gap rest : List Char}
    {c : Char} (htext : text = gap ++ c :: rest)
    (hnone : ∀ u v, gap = u ++ v → v ≠ [] →
      ∀ name gap' run rest', ¬ Occurs host (behind before u) (v ++ c :: rest) name gap' run rest') :
    (segments.flatMap marks)[gap.length]? = some true := by
  induction gap generalizing before text segments with
  | nil =>
    cases h with
    | nil => cases htext
    | copied hnone' tail => rfl
    | @found _ _ name gap' run rest' segments hoccurs tail =>
      obtain ⟨d, name, rfl⟩ := List.exists_cons_of_ne_nil (keyword_ne_nil hoccurs.keyword.1)
      rfl
  | cons d gap ih =>
    cases h with
    | nil => cases htext
    | copied hnone' tail =>
      obtain ⟨rfl, htail⟩ := List.cons.inj htext
      rw [List.flatMap_cons, marks, List.singleton_append, List.length_cons,
        List.getElem?_cons_succ]
      exact ih tail htail fun u v hgap hv => hnone (_ :: u) v (by rw [hgap]; rfl) hv
    | found hoccurs tail =>
      rw [htext] at hoccurs
      exact absurd hoccurs (hnone [] (d :: gap) rfl (List.cons_ne_nil _ _) _ _ _ _)

/-- No keyword begins inside a keyword or the gap behind it. -/
theorem not_keyword_inside {w gap u v w' rest rest' : List Char} (hw : keywords.Language w)
    (hgap : IsGap gap) (heq : w ++ gap = u ++ v) (hu : u ≠ []) (hv : v ≠ [])
    (hw' : keywords.Language w') : v ++ rest ≠ w' ++ rest' := by
  intro htext
  -- no keyword begins with a character of the gap
  have hbegin : (∀ c ∈ v, c ∈ gap) → False := by
    intro hgaps
    obtain ⟨c, v, rfl⟩ := List.exists_cons_of_ne_nil hv
    obtain ⟨⟨d, hd, hspace⟩, -⟩ := isSpace_ends_keyword hw'
    have hhead := congrArg List.head? htext
    rw [List.head?_append_of_ne_nil _ (keyword_ne_nil hw'), hd] at hhead
    obtain rfl : c = d := Option.some.inj hhead
    rcases hgap.of_mem (hgaps c (by simp)) with hspace' | hseparator
    · rw [hspace] at hspace'
      cases hspace'
    · rw [(of_mem_keyword hw' (List.mem_of_mem_head? hd)).1] at hseparator
      cases hseparator
  rcases List.append_eq_append_iff.1 heq with ⟨tail, rfl, rfl⟩ | ⟨tail, rfl, rfl⟩
  · exact hbegin fun c hc => by simp [hc]
  · by_cases htail : tail = []
    · subst htail
      exact hbegin fun c hc => hc
    · rw [List.append_assoc] at htext
      exact not_keyword_suffix hw hu htail hw' htext

theorem not_occurs_inside {w gap u v text name gap' run rest : List Char}
    (hw : keywords.Language w) (hgap : IsGap gap) (heq : w ++ gap = u ++ v) (hu : u ≠ [])
    (hv : v ≠ []) : ¬ Occurs host before (v ++ text) name gap' run rest := by
  intro hoccurs
  have htext := hoccurs.text_eq
  rw [List.append_assoc] at htext
  exact not_keyword_inside hw hgap heq hu hv hoccurs.keyword.1 htext

/-- The first character behind a gap is left, unless a match has begun before. -/
theorem Redacts.getElem?_marks_behind_gap (h : Redacts host before text segments)
    {w gap rest : List Char} {c : Char} (hw : keywords.Language w) (hgap : IsGap gap)
    (htext : text = w ++ gap ++ c :: rest)
    (hnone : ∀ name gap' run rest', ¬ Occurs host before text name gap' run rest') :
    (segments.flatMap marks)[(w ++ gap).length]? = some true := by
  refine h.getElem?_marks htext fun u v heq hv name gap' run rest' hoccurs => ?_
  by_cases hu : u = []
  · subst hu
    rw [List.nil_append] at heq
    rw [htext, heq] at hnone
    exact hnone _ _ _ _ hoccurs
  · exact not_occurs_inside hw hgap heq hu hv hoccurs

/-- A character behind the keyword of a step is not left. -/
theorem getElem?_marks_found {name value : List Char} {ms : List Bool} {i : ℕ}
    (hname : name.length ≤ i) (hvalue : i < (name ++ value).length) :
    (marks (.found name value) ++ ms)[i]? ≠ some true := by
  rw [List.length_append] at hvalue
  rw [marks, List.append_assoc, List.getElem?_append_right (by simpa using hname),
    List.getElem?_append_left (by simp; omega), List.getElem?_map]
  cases value[i - (name.map fun _ => true).length]? <;> simp

/-- The redactor does not look for a keyword inside something that occurs. -/
theorem not_stops_inside {front back name gap run rest : List Char}
    (hoccurs : Occurs host before (front ++ back) name gap run rest) (hfront : front ≠ [])
    (hlength : front.length < (name ++ (gap ++ run)).length) : ¬ Stops host before front back := by
  intro h
  cases h with
  | here => exact hfront rfl
  | step hnone tail => exact hnone _ _ _ _ hoccurs
  | jump hoccurs' tail =>
    rw [List.append_assoc] at hoccurs
    obtain ⟨rfl, rfl, rfl, -⟩ := hoccurs.unique hoccurs'
    simp only [List.length_append] at hlength
    omega

/-- The redactor goes on behind a character at which nothing occurs. -/
theorem stops_cons_iff {c : Char} {front back : List Char}
    (hnone : ∀ name gap run rest', ¬ Occurs host before (c :: front ++ back) name gap run rest') :
    Stops host before (c :: front) back ↔ Stops host (some c) front back := by
  refine ⟨fun h => ?_, fun h => .step hnone h⟩
  generalize hwhole : c :: front = whole at h hnone
  cases h with
  | here => cases hwhole
  | step hnone' tail =>
    obtain ⟨rfl, rfl⟩ := List.cons.inj hwhole
    exact tail
  | jump hoccurs tail =>
    rw [List.append_assoc] at hnone
    exact absurd hoccurs (hnone _ _ _ _)

/-- The redactor goes on behind something that occurs. -/
theorem stops_append_iff {name gap run front back : List Char}
    (hoccurs : Occurs host before (name ++ (gap ++ run) ++ (front ++ back)) name gap run
      (front ++ back)) :
    Stops host before (name ++ (gap ++ run) ++ front) back ↔
      Stops host (behind before (name ++ (gap ++ run))) front back := by
  refine ⟨fun h => ?_, fun h => .jump hoccurs h⟩
  generalize hwhole : name ++ (gap ++ run) ++ front = whole at h
  cases h with
  | here =>
    have hname := (List.append_eq_nil_iff.1 (List.append_eq_nil_iff.1 hwhole).1).1
    exact absurd hname (keyword_ne_nil hoccurs.keyword.1)
  | step hnone tail =>
    rw [← hwhole, List.append_assoc] at hnone
    exact absurd hoccurs (hnone _ _ _ _)
  | @jump _ name' gap' run' front' _ hoccurs' tail =>
    have htexts : name ++ (gap ++ run) ++ (front ++ back) =
        name' ++ (gap' ++ run') ++ (front' ++ back) := by
      rw [← List.append_assoc, hwhole, List.append_assoc]
    rw [← htexts] at hoccurs'
    obtain ⟨rfl, rfl, rfl, hrests⟩ := hoccurs.unique hoccurs'
    rwa [List.append_cancel_right hrests]

/-- A credential whose keyword the redactor finds. -/
theorem blank_found_iff {name gap run rest : List Char}
    (hoccurs : Occurs host before text name gap run rest)
    (tail : Redacts host (behind before (name ++ (gap ++ run))) rest segments)
    {w gap' credential back : List Char} (htext : text = w ++ gap' ++ (credential ++ back))
    (hw : keywords.Language w) (hgap' : IsGap gap')
    (hhead : ∃ c, credential.head? = some c ∧ isSpace c = false) :
    Blank ((Segment.found name (gap ++ run) :: segments).flatMap marks) (w ++ gap').length
        (w ++ gap' ++ credential).length ↔
      ∀ c ∈ credential, isCredential c = true := by
  have htexts := hoccurs.text_eq.symm.trans htext
  simp only [List.append_assoc] at htexts
  obtain rfl := keyword_unique hoccurs.keyword.1 hw htexts
  have hcredential : ∃ c, (credential ++ back).head? = some c ∧ isSpace c = false := by
    obtain ⟨c, hc, hspace⟩ := hhead
    exact ⟨c, by rw [List.head?_append, hc, Option.some_or], hspace⟩
  obtain ⟨rfl, hruns⟩ := hoccurs.isGap.unique hgap' (hoccurs.run_head rest) hcredential
    (List.append_cancel_left htexts)
  rw [List.flatMap_cons]
  rcases run_cases hoccurs.run_credential hoccurs.rest_head hruns with ⟨run', rfl, -, hall⟩ |
    ⟨c, w', rfl, rfl, hc⟩
  · refine ⟨fun _ => hall, fun _ i hstart hstop => getElem?_marks_found ?_ ?_⟩
    · rw [List.length_append] at hstart
      omega
    · simp only [List.length_append] at hstop ⊢
      omega
  · -- the first character behind the run is left
    constructor
    · intro hblank
      have hleft := tail.getElem?_marks (List.nil_append _).symm
        (fun u v hnil hv => absurd (List.append_eq_nil_iff.1 hnil.symm).2 hv)
      refine absurd ?_ (hblank (name ++ (gap ++ run)).length ?_ ?_)
      · rw [List.getElem?_append_right (by rw [length_marks]; rfl), length_marks]
        simpa [Segment.source] using hleft
      · simp only [List.length_append]
        omega
      · simp only [List.length_append, List.length_cons]
        omega
    · intro hall
      have hcredential := hall c (by simp)
      rw [hc] at hcredential
      cases hcredential

/-- A credential whose keyword stands in the run of an earlier one. -/
theorem blank_inside_iff {name gap run run' rest : List Char}
    (hoccurs : Occurs host before text name gap (run' ++ run) rest) (hne : run ≠ [])
    (tail : Redacts host (behind before (name ++ (gap ++ (run' ++ run)))) rest segments)
    {w gap' credential back : List Char}
    (htext : run ++ rest = w ++ gap' ++ credential ++ back)
    (hw : keywords.Language w) (hgap' : IsGap gap') (hcredential : credential ≠ []) :
    Blank ((Segment.found name (gap ++ (run' ++ run)) :: segments).flatMap marks)
        (name ++ (gap ++ run') ++ (w ++ gap')).length
        (name ++ (gap ++ run') ++ (w ++ gap') ++ credential).length ↔
      ∀ c ∈ w ++ gap' ++ credential, isCredential c = true := by
  rw [List.flatMap_cons]
  rcases run_cases (fun c hc => hoccurs.run_credential c (by simp [hc])) hoccurs.rest_head htext
    with ⟨run'', rfl, -, hall⟩ | ⟨c, w', hrun, rfl, hc⟩
  · refine ⟨fun _ => hall, fun _ i hstart hstop => getElem?_marks_found ?_ ?_⟩
    · simp only [List.length_append] at hstart
      omega
    · simp only [List.length_append] at hstop ⊢
      omega
  · refine ⟨fun hblank => ?_, fun hall => ?_⟩
    · exfalso
      have hmarks : (marks (Segment.found name (gap ++ (run' ++ run)))).length =
          (name ++ (gap ++ run') ++ run).length := by
        rw [length_marks, Segment.source]
        simp
      have hleft : ∀ {inner inner' : List Char} {d : Char}, c :: w' = inner ++ d :: inner' →
          (∀ u v, inner = u ++ v → v ≠ [] → ∃ u', w ++ gap' = u' ++ v ∧ u' ≠ []) →
          (w ++ gap').length ≤ run.length + inner.length → False := by
        intro inner inner' d hinner hinside hge
        have htail : c :: (w' ++ back) = inner ++ d :: (inner' ++ back) := by
          rw [← List.cons_append, hinner, List.append_assoc, List.cons_append]
        have hmark : (segments.flatMap marks)[inner.length]? = some true := by
          refine tail.getElem?_marks htail fun u v huv hv => ?_
          obtain ⟨u', hu', hne'⟩ := hinside u v huv hv
          exact fun name' gap'' run'' rest' => not_occurs_inside hw hgap' hu' hne' hv
        have hlengths := congrArg List.length hrun
        have hlengths' := congrArg List.length hinner
        simp only [List.length_append, List.length_cons] at hlengths hlengths' hge
        refine hblank ((name ++ (gap ++ run') ++ run).length + inner.length) ?_ ?_ ?_
        · simp only [List.length_append]
          omega
        · simp only [List.length_append]
          omega
        · rw [List.getElem?_append_right (by omega), hmarks, Nat.add_sub_cancel_left]
          exact hmark
      rcases List.append_eq_append_iff.1 hrun with ⟨tail', hinside, hcred⟩ |
        ⟨tail', hinside, hcred⟩
      · exact hleft (List.nil_append _).symm
          (fun u v huv hv => absurd (List.append_eq_nil_iff.1 huv.symm).2 hv)
          (by rw [hinside]; simp)
      · obtain ⟨d, credential, rfl⟩ := List.exists_cons_of_ne_nil hcredential
        refine hleft hcred (fun u v huv hv => ⟨run ++ u, ?_, ?_⟩) (by rw [hinside]; simp)
        · rw [hinside, huv, List.append_assoc]
        · exact List.append_ne_nil_of_left_ne_nil hne _
    · have hcharacter := hall c (by rw [hrun]; simp)
      rw [hc] at hcharacter
      cases hcharacter

/-- **What is left of a credential**: nothing exactly if it is one run, and the redactor looks
for its keyword or the keyword belongs to the same run as the credential. -/
theorem Redacts.blank_iff (h : Redacts host before text segments)
    {front w gap credential back : List Char}
    (htext : text = front ++ (w ++ gap ++ (credential ++ back)))
    (hw : Keyword host (behind before front) w) (hgap : IsGap gap)
    (hhead : ∃ c, credential.head? = some c ∧ isSpace c = false) :
    Blank (segments.flatMap marks) (front.length + (w ++ gap).length)
        (front.length + (w ++ gap ++ credential).length) ↔
      (∀ c ∈ credential, isCredential c = true) ∧
        (Stops host before front (w ++ gap ++ (credential ++ back)) ∨
          ∀ c ∈ w ++ gap, isCredential c = true) := by
  induction h generalizing front with
  | nil =>
    have hnil := (List.append_eq_nil_iff.1 htext.symm).2
    simp only [List.append_assoc] at hnil
    exact absurd (List.append_eq_nil_iff.1 hnil).1 (keyword_ne_nil hw.1)
  | @copied before c rest segments hnone tail ih =>
    cases front with
    | nil =>
      rw [List.nil_append] at htext
      obtain ⟨d, hd, -⟩ := hhead
      obtain ⟨credential, rfl⟩ := List.head?_eq_some_iff.1 hd
      -- the character behind the gap is none of a credential
      have hnot : isCredential d = false := by
        rw [← Bool.not_eq_true]
        intro hcredential
        obtain ⟨name, gap', run, rest', hoccurs⟩ := exists_occurs_iff.2
          ⟨w, hw, gap, d, credential ++ back, htext, hgap, hcredential⟩
        exact hnone _ _ _ _ hoccurs
      have hleft := (Redacts.copied hnone tail).getElem?_marks_behind_gap hw.1 hgap htext hnone
      refine ⟨fun hblank => absurd hleft (hblank _ ?_ ?_), fun hall => ?_⟩
      · simp
      · simp
      · have hcharacter := hall.1 d (by simp)
        rw [hnot] at hcharacter
        cases hcharacter
    | cons d front =>
      obtain ⟨rfl, htail⟩ := List.cons.inj htext
      rw [htail] at hnone
      rw [stops_cons_iff hnone, ← ih htail hw]
      refine blank_cons_iff (.copied c) ?_ ?_
      · simp only [Segment.source, List.length_cons, List.length_nil]
        omega
      · simp only [Segment.source, List.length_cons, List.length_nil]
        omega
  | @found before text name gap' run rest segments hoccurs tail ih =>
    have htexts := hoccurs.text_eq.symm.trans htext
    have hplace : (∃ front', front = name ++ (gap' ++ run) ++ front' ∧
        rest = front' ++ (w ++ gap ++ (credential ++ back))) ∨
        ∃ inside, inside ≠ [] ∧ name ++ (gap' ++ run) = front ++ inside ∧
          w ++ gap ++ (credential ++ back) = inside ++ rest := by
      rcases List.append_eq_append_iff.1 htexts with hbehind | ⟨inside, hinside, hrest⟩
      · exact .inl hbehind
      · by_cases hnil : inside = []
        · subst hnil
          exact .inl ⟨[], by rw [hinside, List.append_nil, List.append_nil], hrest.symm⟩
        · exact .inr ⟨inside, hnil, hinside, hrest⟩
    rcases hplace with ⟨front', rfl, rfl⟩ | ⟨inside, hne, hinside, hrest⟩
    · -- the keyword stands behind this step
      rw [htext, List.append_assoc] at hoccurs
      rw [stops_append_iff hoccurs, ← ih rfl (by rwa [behind_append] at hw)]
      refine blank_cons_iff (.found name (gap' ++ run)) ?_ ?_
      · simp only [Segment.source, List.length_append]
        omega
      · simp only [Segment.source, List.length_append]
        omega
    · by_cases hfront : front = []
      · -- it is the keyword of this step
        subst hfront
        rw [htext] at hoccurs
        have hiff := blank_found_iff hoccurs tail rfl hw.1 hgap hhead
        rw [List.length_nil, Nat.zero_add, Nat.zero_add]
        exact hiff.trans ⟨fun hall => ⟨hall, .inl .here⟩, fun hall => hall.1⟩
      · -- it stands in the run of this step
        rw [← List.append_assoc] at hinside
        obtain ⟨run', hfrontEq, hrunEq⟩ : ∃ run', front = name ++ gap' ++ run' ∧
            run = run' ++ inside := by
          rcases List.append_eq_append_iff.1 hinside with ⟨run', hfrontEq, hrunEq⟩ |
            ⟨begun, hbegun, hinsideEq⟩
          · exact ⟨run', hfrontEq, hrunEq⟩
          · by_cases hnil : begun = []
            · subst hnil
              exact ⟨[], by rw [List.append_nil, hbegun, List.append_nil], hinsideEq.symm⟩
            · rw [hinsideEq, List.append_assoc, List.append_assoc] at hrest
              exact absurd hrest.symm (not_keyword_inside hoccurs.keyword.1 hoccurs.isGap hbegun
                hfront hnil hw.1)
        subst hfrontEq hrunEq
        have hcredential : credential ≠ [] := by
          obtain ⟨c, hc, -⟩ := hhead
          exact List.ne_nil_of_mem (List.mem_of_mem_head? hc)
        have hruns : inside ++ rest = w ++ gap ++ credential ++ back := by
          rw [← hrest, List.append_assoc (w ++ gap)]
        have hiff := blank_inside_iff hoccurs hne tail hruns hw.1 hgap hcredential
        have hstops : ¬ Stops host before (name ++ gap' ++ run')
            (w ++ gap ++ (credential ++ back)) := by
          rw [htext] at hoccurs
          refine not_stops_inside hoccurs hfront ?_
          have hpos := List.length_pos_iff.2 hne
          simp only [List.length_append]
          omega
        have hstart : (name ++ (gap' ++ run') ++ (w ++ gap)).length =
            (name ++ gap' ++ run').length + (w ++ gap).length := by
          simp only [List.length_append]
          omega
        have hstop : (name ++ (gap' ++ run') ++ (w ++ gap) ++ credential).length =
            (name ++ gap' ++ run').length + (w ++ gap ++ credential).length := by
          simp only [List.length_append]
          omega
        rw [hstart, hstop] at hiff
        rw [hiff, List.forall_mem_append, or_iff_right hstops, and_comm]

/-- A keyword with a credential somewhere in a text. -/
structure Mention (host : Host) (text : List Char) where
  front : List Char
  keyword : List Char
  gap : List Char
  credential : List Char
  back : List Char
  text_eq : text = front ++ (keyword ++ gap ++ (credential ++ back))
  recognised : Keyword host (behind none front) keyword
  isGap : IsGap gap
  begins : ∃ c, credential.head? = some c ∧ isSpace c = false

/-- The places of the credential. -/
def Mention.IsPlace (m : Mention host text) (i : ℕ) : Prop :=
  m.front.length + (m.keyword ++ m.gap).length ≤ i ∧
    i < m.front.length + (m.keyword ++ m.gap ++ m.credential).length

/-- No white space, comma or semicolon cuts the credential; and the redactor looks for its
keyword, or none cuts the keyword and the gap either. -/
def Mention.Uncut (m : Mention host text) : Prop :=
  (∀ c ∈ m.credential, isCredential c = true) ∧
    (Stops host none m.front (m.keyword ++ m.gap ++ (m.credential ++ m.back)) ∨
      ∀ c ∈ m.keyword ++ m.gap, isCredential c = true)

theorem Mention.survives_iff (m : Mention host text) :
    (∀ i, m.IsPlace i → ¬ Survives host text i) ↔ m.Uncut := by
  have hiff := (redacts host text).blank_iff m.text_eq m.recognised m.isGap m.begins
  rw [Mention.Uncut, ← hiff]
  exact ⟨fun h i hstart hstop => h i ⟨hstart, hstop⟩, fun h i hi => h i hi.1 hi.2⟩

end Survival

namespace RedactionSample

def host : Host where
  sha256 := id
  reprFloat _ := ""
  reprStr := id
  lower s := s.map Char.toLower
  isAlnum := Char.isAlphanum

theorem keyword_authorization : Keyword host none "authorization".toList :=
  ⟨.inr (.inr (.inr (.inr (.inl (language_literal_iff.2 (by decide)))))), by decide⟩

theorem isGap_colon : IsGap ": ".toList := ⟨[], ':', [' '], rfl, by simp, rfl, List.all_eq_true.1 rfl⟩

def header (credential : String) : String := "authorization: " ++ credential

/-- A header with a credential. -/
def mention (credential : String)
    (h : ∃ c, credential.toList.head? = some c ∧ isSpace c = false) :
    Mention host (header credential).toList where
  front := []
  keyword := "authorization".toList
  gap := ": ".toList
  credential := credential.toList
  back := []
  text_eq := by
    rw [header, String.toList_append, List.append_nil]
    rfl
  recognised := keyword_authorization
  isGap := isGap_colon
  begins := h

end RedactionSample

end Agent
end RagflowAgent
