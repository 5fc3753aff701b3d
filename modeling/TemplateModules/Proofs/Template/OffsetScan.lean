import TemplateModules.Proofs.Template.StepsBack
import TemplateModules.Proofs.Template.Tiling
import TemplateModules.Spec.Artifact

/-!
# Scanning by offsets ends

The scan by offsets comes to the same tokens or to the same error as the scan, and makes every slice
in order, in bounds and between characters.  On the sources that step back it makes one slice out of
order.
-/

namespace TemplateModules
namespace Template
namespace ByOffset

open Text

/-! ## Bytes -/

/-- The byte of a backslash ends the encoding of no other character. -/
theorem getLast?_utf8EncodeChar (c : Char) :
    (String.utf8EncodeChar c).getLast? = some backslash ↔ c = '\\' := by
  constructor
  · intro h
    exact (mem_utf8EncodeChar_iff (by decide)).mp (List.mem_of_getLast? h)
  · rintro rfl
    rfl

/-- The byte before an offset is the last byte of the character before it. -/
theorem followsBackslash_eq (front part : List Char) :
    followsBackslash (front ++ part) (byteSize front) =
      .ok (decide (front.getLast? = some '\\')) := by
  rcases List.eq_nil_or_concat front with rfl | ⟨lead, c, rfl⟩
  · rfl
  · rw [List.concat_eq_append]
    have hpos := c.utf8Size_pos
    have hsize : byteSize (lead ++ [c]) = byteSize lead + c.utf8Size := by
      rw [byteSize_append, byteSize_cons, byteSize_nil, Nat.add_zero]
    have hbyte :
        (((lead ++ [c]) ++ part).flatMap String.utf8EncodeChar)[byteSize lead + c.utf8Size - 1]? =
          (String.utf8EncodeChar c).getLast? := by
      rw [List.append_assoc, List.flatMap_append, List.singleton_append, List.flatMap_cons,
        List.getElem?_append_right (by rw [length_flatMap_utf8EncodeChar]; omega),
        length_flatMap_utf8EncodeChar,
        List.getElem?_append_left (by rw [String.length_utf8EncodeChar]; omega),
        List.getLast?_eq_getElem?, String.length_utf8EncodeChar]
      congr 1
      omega
    rw [followsBackslash, hsize, if_pos (by omega), byteAt, hbyte, List.getLast?_concat]
    have hc := getLast?_utf8EncodeChar c
    cases hlast : (String.utf8EncodeChar c).getLast? with
    | none =>
        have hlength := String.length_utf8EncodeChar c
        rw [List.getLast?_eq_none_iff.mp hlast] at hlength
        exact absurd hlength.symm hpos.ne'
    | some b =>
        rw [hlast, Option.some.injEq] at hc
        simp only [bind, Except.bind, pure, Except.pure, Except.ok.injEq, Option.some.injEq]
        rw [Bool.eq_iff_iff, beq_iff_eq, decide_eq_true_iff]
        exact hc

/-! ## Rounds -/

section Rounds

variable {front part before rest lead : List Char}

theorem backslashesBefore_plain (h : front.getLast? ≠ some '\\') :
    backslashesBefore (front ++ part) (byteSize front) = .ok (false, false) := by
  rw [backslashesBefore, followsBackslash_eq, decide_eq_false h]
  rfl

theorem backslashesBefore_concat (lead part : List Char) :
    backslashesBefore (lead ++ ['\\'] ++ part) (byteSize (lead ++ ['\\'])) =
      .ok (true, decide (lead.getLast? = some '\\')) := by
  have hsize : byteSize (lead ++ ['\\']) - 1 = byteSize lead := by
    rw [byteSize_append]
    rfl
  rw [backslashesBefore, followsBackslash_eq, hsize, List.append_assoc, followsBackslash_eq,
    List.getLast?_concat]
  rfl

theorem sliceFrom_append (front part : List Char) :
    sliceFrom (front ++ part) (byteSize front) = .ok part := by
  have hslice := sliceFrom_offset (List.suffix_append front part)
  rwa [offset_append] at hslice

theorem slice_pieces (front piece later : List Char) :
    slice (front ++ piece ++ later) (byteSize front) (byteSize (front ++ piece)) = .ok piece := by
  rw [byteSize_append]
  exact slice_eq_ok.mpr (slice?_append front piece later)

/-- A round in which braces are found, once the bytes before them are read. -/
theorem nextRound_of_cut {escaped doubled : Bool}
    (hcut : cut openBraces part = some (before, rest))
    (hbytes : backslashesBefore (front ++ before ++ (openBraces ++ rest))
      (byteSize (front ++ before)) = .ok (escaped, doubled)) :
    nextRound (front ++ part) (byteSize front) =
      if escaped && !doubled then do
        let text ← slice (front ++ part) (byteSize front) (byteSize (front ++ before) - 1)
        let resume := resumption (front ++ part) (byteSize (front ++ before) + 2) rest
        return .literal
          (text ++ (← slice (front ++ part) (byteSize (front ++ before)) resume)) resume
      else do
        return .tag
          (← slice (front ++ part) (byteSize front)
            (if doubled then byteSize (front ++ before) - 1 else byteSize (front ++ before)))
          (byteSize (front ++ before)) := by
  have hsource : front ++ part = front ++ before ++ (openBraces ++ rest) := by
    rw [eq_append_of_cut hcut]
    simp only [List.append_assoc]
  have hrest := sliceFrom_append (front ++ before ++ openBraces) rest
  rw [List.append_assoc (front ++ before), ← hsource, byteSize_append] at hrest
  have hbehind : byteSize (front ++ before) + 2 =
      byteSize (front ++ before) + byteSize openBraces := rfl
  rw [← hsource] at hbytes
  rw [nextRound, sliceFrom_append]
  simp only [bind, Except.bind, find?_of_cut hcut, ← byteSize_append, hbytes]
  rw [hbehind, hrest]

theorem nextRound_none (hcut : cut openBraces part = none) :
    nextRound (front ++ part) (byteSize front) = .ok (.last part) := by
  rw [nextRound, sliceFrom_append]
  simp only [bind, Except.bind, find?_of_none hcut]
  rfl

theorem nextRound_plain
    (hcut : cut openBraces part = some (before, rest))
    (h : (front ++ before).getLast? ≠ some '\\') :
    nextRound (front ++ part) (byteSize front) =
      .ok (.tag before (byteSize (front ++ before))) := by
  have hslice := slice_pieces front before (openBraces ++ rest)
  rw [nextRound_of_cut hcut (backslashesBefore_plain h), eq_append_of_cut hcut]
  simp only [List.append_assoc] at hslice ⊢
  simp only [Bool.false_and, Bool.false_eq_true, if_false, hslice]
  rfl

theorem byteSize_backslash (front : List Char) :
    byteSize (front ++ ['\\']) - 1 = byteSize front := by
  rw [byteSize_append]
  rfl

theorem nextRound_doubled
    (hcut : cut openBraces part = some (lead ++ ['\\', '\\'], rest)) :
    nextRound (front ++ part) (byteSize front) =
      .ok (.tag (lead ++ ['\\']) (byteSize (front ++ (lead ++ ['\\', '\\'])))) := by
  have hbefore : front ++ (lead ++ ['\\', '\\']) = front ++ lead ++ ['\\'] ++ ['\\'] := by simp
  have hbytes := backslashesBefore_concat (front ++ lead ++ ['\\']) (openBraces ++ rest)
  rw [← hbefore, List.getLast?_concat] at hbytes
  have hslice := slice_pieces front (lead ++ ['\\']) ('\\' :: openBraces ++ rest)
  have hstop : byteSize (front ++ (lead ++ ['\\', '\\'])) - 1 =
      byteSize (front ++ (lead ++ ['\\'])) := by
    rw [hbefore, byteSize_backslash, List.append_assoc]
  rw [nextRound_of_cut hcut hbytes, hstop, eq_append_of_cut hcut]
  simp only [List.append_assoc, List.cons_append, List.nil_append] at hslice ⊢
  simp only [decide_true, Bool.not_true, Bool.and_false, Bool.false_eq_true, if_false, if_true]
  rw [hslice]
  rfl

theorem nextRound_escaped
    (hcut : cut openBraces part = some (lead ++ ['\\'], rest))
    (h : (front ++ lead).getLast? ≠ some '\\') :
    nextRound (front ++ part) (byteSize front) =
      .ok (match cut openBraces rest with
        | none => .literal (lead ++ openBraces ++ rest) (byteSize (front ++ part))
        | some (inner, _) =>
            .literal (lead ++ openBraces ++ inner)
              (byteSize (front ++ (lead ++ ['\\']) ++ (openBraces ++ inner)))) := by
  have hbytes := backslashesBefore_concat (front ++ lead) (openBraces ++ rest)
  rw [decide_eq_false h, List.append_assoc front] at hbytes
  have hsource : front ++ part = front ++ (lead ++ ['\\']) ++ (openBraces ++ rest) := by
    rw [eq_append_of_cut hcut]
    simp only [List.append_assoc]
  have hlead : slice (front ++ part) (byteSize front) (byteSize (front ++ (lead ++ ['\\'])) - 1) =
      .ok lead := by
    rw [← List.append_assoc, byteSize_backslash, eq_append_of_cut hcut]
    have hslice := slice_pieces front lead (['\\'] ++ openBraces ++ rest)
    simpa only [List.append_assoc] using hslice
  rw [nextRound_of_cut hcut hbytes]
  simp only [Bool.not_false, Bool.and_true, if_true, hlead, bind, Except.bind]
  unfold resumption
  cases hlater : cut openBraces rest with
  | none =>
      have hslice := slice_pieces (front ++ (lead ++ ['\\'])) (openBraces ++ rest) []
      rw [List.append_nil, ← hsource] at hslice
      simp only [find?_of_none hlater, hslice, List.append_assoc]
      rfl
  | some found =>
      obtain ⟨inner, later⟩ := found
      have hslice := slice_pieces (front ++ (lead ++ ['\\'])) (openBraces ++ inner)
        (openBraces ++ later)
      have hrest : openBraces ++ rest = openBraces ++ inner ++ (openBraces ++ later) := by
        rw [eq_append_of_cut hlater]
        simp only [List.append_assoc]
      have hresume : byteSize (front ++ (lead ++ ['\\'])) + 2 + byteSize inner =
          byteSize (front ++ (lead ++ ['\\']) ++ (openBraces ++ inner)) := by
        rw [byteSize_append (front ++ (lead ++ ['\\'])), byteSize_append openBraces,
          ← Nat.add_assoc]
        rfl
      rw [List.append_assoc, ← hrest, ← hsource] at hslice
      simp only [find?_of_cut hlater, hresume, hslice]
      rw [List.append_assoc lead]
      rfl

/-- Where a backslash stands right before the place of a round, and braces behind it, the round
would copy a text that ends before it starts. -/
theorem nextRound_backwards
    (hcut : cut openBraces part = some ([], rest)) (h : front.getLast? = some '\\') :
    nextRound (front ++ part) (byteSize front) =
      .error (.slice (byteSize front) (byteSize front - 1)) := by
  obtain ⟨lead, rfl⟩ := List.getLast?_eq_some_iff.mp h
  have hbytes := backslashesBefore_concat lead (openBraces ++ rest)
  have hslice : slice (lead ++ ['\\'] ++ part) (byteSize (lead ++ ['\\']))
      (byteSize (lead ++ ['\\']) - 1) =
        .error (.slice (byteSize (lead ++ ['\\'])) (byteSize (lead ++ ['\\']) - 1)) := by
    have hsize : byteSize (lead ++ ['\\']) = byteSize lead + 1 := by
      rw [byteSize_append]
      rfl
    rw [slice, slice?, if_neg (by omega)]
  rw [← List.append_nil (lead ++ ['\\'])] at hbytes
  rw [nextRound_of_cut hcut hbytes]
  simp only [List.append_nil]
  cases decide (lead.getLast? = some '\\') with
  | true =>
      simp only [Bool.not_true, Bool.and_false, Bool.false_eq_true, if_false, if_true, hslice]
      rfl
  | false =>
      rw [hslice]
      rfl

end Rounds

/-! ## The main loop -/

/-- The outcome of a scan by offsets is that of a scan.  Where the scan goes back, a slice by
offsets ends before it starts. -/
inductive Agrees : Except Failure (List Token) → Except Halt (List Token) → Prop where
  | tokens (ts : List Token) : Agrees (.ok ts) (.ok ts)
  | refused (e : Error) : Agrees (.error (.refused e)) (.error (.refused e))
  | backwards {start stop : Nat} (h : stop < start) :
      Agrees (.error .backwards) (.error (.slice start stop))

section Loop

variable {index : LineIndex} {source front part rest text more : List Char}
  {pos start opening resume : Nat}

theorem tokensFrom_end (index : LineIndex) (source : List Char) (start : Nat) (text : List Char) :
    tokensFrom index source (byteSize source) start text =
      .ok (flush index text start (byteSize source)) := by
  rw [tokensFrom, dif_neg (Nat.lt_irrefl _)]

theorem tokensFrom_of_last (hpos : pos < byteSize source)
    (hround : nextRound source pos = .ok (.last more)) :
    tokensFrom index source pos start text =
      .ok (flush index (text ++ more) start (byteSize source)) := by
  rw [tokensFrom, dif_pos hpos]
  split
  · next h => simp [hround] at h
  · next found h =>
      obtain rfl : found = more := by simpa using h.symm.trans hround
      rfl
  · next h => simp [hround] at h
  · next h => simp [hround] at h

theorem tokensFrom_of_literal (hpos : pos < byteSize source)
    (hround : nextRound source pos = .ok (.literal more resume)) :
    tokensFrom index source pos start text =
      tokensFrom index source resume start (text ++ more) := by
  rw [tokensFrom, dif_pos hpos]
  split
  · next h => simp [hround] at h
  · next h => simp [hround] at h
  · next found next' h =>
      obtain ⟨rfl, rfl⟩ := by simpa using h.symm.trans hround
      rfl
  · next h => simp [hround] at h

theorem tokensFrom_of_error {halt : Halt} (hpos : pos < byteSize source)
    (hround : nextRound source pos = .error halt) :
    tokensFrom index source pos start text = .error halt := by
  rw [tokensFrom, dif_pos hpos]
  split
  · next h => simpa [hround] using h.symm
  · next h => simp [hround] at h
  · next h => simp [hround] at h
  · next h => simp [hround] at h

theorem tokensFrom_of_tag (hpos : pos < byteSize source)
    (hround : nextRound source pos = .ok (.tag more opening)) :
    tokensFrom index source pos start text =
      match lexTag index source opening with
      | .error halt => .error halt
      | .ok (tag, stop) =>
          match tokensFrom index source stop stop [] with
          | .error halt => .error halt
          | .ok tokens => .ok (flush index (text ++ more) start opening ++ .tag tag :: tokens) := by
  rw [tokensFrom, dif_pos hpos]
  split
  · next h => simp [hround] at h
  · next h => simp [hround] at h
  · next h => simp [hround] at h
  · next found place h =>
      obtain ⟨rfl, rfl⟩ := by simpa using h.symm.trans hround
      split
      · next halt htag => rw [htag]
      · next tag stop htag =>
          cases hmore : tokensFrom index source stop stop [] with
          | error halt => simp only [htag, hmore]
          | ok tokens => simp only [htag, hmore]

end Loop

section Agreement

variable {front part before rest text : List Char}

theorem flush_eq (text front part later : List Char) :
    flush (LineIndex.ofSource (front ++ part)) text (byteSize front)
        (offset (front ++ part) later) =
      contentToken (LineIndex.ofSource (front ++ part)) text part later := by
  rw [← offset_append front part]
  rfl

theorem lt_of_cut (front : List Char) (hcut : cut openBraces part = some (before, rest)) :
    byteSize front < byteSize (front ++ part) := by
  have hbraces : byteSize openBraces = 2 := rfl
  rw [eq_append_of_cut hcut, byteSize_append, byteSize_append, byteSize_append]
  omega

/-- The place where the round after an escaped mustache starts. -/
theorem eq_of_cuts {inner later : List Char} (front : List Char)
    (hcut : cut openBraces part = some (before, rest))
    (hlater : cut openBraces rest = some (inner, later)) :
    front ++ part = front ++ before ++ (openBraces ++ inner) ++ (openBraces ++ later) := by
  rw [eq_append_of_cut hcut, eq_append_of_cut hlater]
  simp only [List.append_assoc]

/-- A round that starts at the braces of a tag copies nothing. -/
theorem nextRound_braces (later : List Char) (h : front.getLast? ≠ some '\\') :
    nextRound (front ++ (openBraces ++ later)) (byteSize front) =
      .ok (.tag [] (byteSize front)) := by
  rw [← List.append_nil front] at h
  have hround := nextRound_plain (cut_openBraces later) h
  rwa [List.append_nil] at hround

/-- The loop comes to the tag that a stretch leads up to, with the content of the stretch in two
parts: what was read in the rounds before, and what the last round adds. -/
theorem exists_round_of_upTo (index : LineIndex) (hfront : front.getLast? ≠ some '\\')
    (hstretch : stretch part = .upTo text rest) :
    ∃ pos before more,
      pos < byteSize (front ++ part) ∧ before ++ more = text ∧
      tokensFrom index (front ++ part) (byteSize front) (byteSize front) [] =
        tokensFrom index (front ++ part) pos (byteSize front) before ∧
      nextRound (front ++ part) pos =
        .ok (.tag more (offset (front ++ part) (openBraces ++ rest))) := by
  cases hcut : cut openBraces part with
  | none => simp [stretch, hcut] at hstretch
  | some found =>
      obtain ⟨before, tail⟩ := found
      have hpos := lt_of_cut front hcut
      have hopening {before : List Char} (hcut : cut openBraces part = some (before, tail)) :
          offset (front ++ part) (openBraces ++ tail) = byteSize (front ++ before) := by
        rw [eq_append_of_cut hcut, List.append_assoc, ← List.append_assoc, offset_append]
      obtain hplain | ⟨lead, rfl, hlead⟩ | ⟨lead, rfl⟩ := backslash_cases before
      · obtain ⟨rfl, rfl⟩ := by simpa using (stretch_of_plain hcut hplain).symm.trans hstretch
        refine ⟨_, [], before, hpos, rfl, rfl, ?_⟩
        rw [hopening hcut]
        exact nextRound_plain hcut (getLast?_append_ne hfront hplain)
      · have hround := nextRound_escaped hcut (getLast?_append_ne hfront hlead)
        have hliteral := (stretch_of_escaped hcut hlead).symm.trans hstretch
        cases hlater : cut openBraces tail with
        | none => simp [hlater] at hliteral
        | some found =>
            obtain ⟨inner, later⟩ := found
            simp only [hlater] at hround hliteral
            split at hliteral
            · cases hliteral
            · next hinner =>
                obtain ⟨rfl, rfl⟩ := by simpa using hliteral
                have hlast : (front ++ (lead ++ ['\\']) ++ (openBraces ++ inner)).getLast? ≠
                    some '\\' := by
                  rw [getLast?_append_eq (by simp [openBraces])]
                  exact mt (getLast?_openBraces_append inner).mp hinner
                have htag := nextRound_braces later hlast
                have hbehind := lt_of_cut
                  (front ++ (lead ++ ['\\']) ++ (openBraces ++ inner)) (cut_openBraces later)
                have hplace := offset_append
                  (front ++ (lead ++ ['\\']) ++ (openBraces ++ inner)) (openBraces ++ later)
                rw [← eq_of_cuts front hcut hlater] at htag hbehind hplace
                refine ⟨_, lead ++ openBraces ++ inner, [], hbehind, ?_, ?_, ?_⟩
                · rw [List.append_nil, List.append_assoc]
                · exact tokensFrom_of_literal hpos hround
                · rw [hplace]
                  exact htag
      · obtain ⟨rfl, rfl⟩ := by simpa using (stretch_of_doubled hcut).symm.trans hstretch
        refine ⟨_, [], _, hpos, rfl, rfl, ?_⟩
        rw [hopening hcut]
        exact nextRound_doubled hcut

/-- The content before a tag and the tag are the same by offsets. -/
theorem tokensFrom_of_upTo (hfront : front.getLast? ≠ some '\\')
    (hstretch : stretch part = .upTo text rest) :
    tokensFrom (LineIndex.ofSource (front ++ part)) (front ++ part) (byteSize front)
        (byteSize front) [] =
      match placed (front ++ part) (readTag (LineIndex.ofSource (front ++ part)) rest) with
      | .error halt => .error halt
      | .ok (tag, stop) =>
          match tokensFrom (LineIndex.ofSource (front ++ part)) (front ++ part) stop stop [] with
          | .error halt => .error halt
          | .ok tokens =>
              .ok (contentToken (LineIndex.ofSource (front ++ part)) text part (openBraces ++ rest)
                ++ .tag tag :: tokens) := by
  obtain ⟨pos, before, more, hpos, rfl, hrounds, hround⟩ :=
    exists_round_of_upTo (LineIndex.ofSource (front ++ part)) hfront hstretch
  have hbraces := (stretch_suffix hstretch).trans (List.suffix_append front part)
  rw [hrounds, tokensFrom_of_tag hpos hround, lexTag_eq hbraces, flush_eq]

/-- The content that nothing follows is the same by offsets. -/
theorem tokensFrom_of_stretch_last (hfront : front.getLast? ≠ some '\\')
    (hstretch : stretch part = .last text) :
    tokensFrom (LineIndex.ofSource (front ++ part)) (front ++ part) (byteSize front)
        (byteSize front) [] =
      .ok (contentToken (LineIndex.ofSource (front ++ part)) text part []) := by
  rw [← flush_eq, offset_nil]
  cases hcut : cut openBraces part with
  | none =>
      obtain rfl : part = text := by simpa [stretch, hcut] using hstretch
      cases part with
      | nil => rw [List.append_nil, tokensFrom_end]
      | cons c cs =>
          have hpos : byteSize front < byteSize (front ++ c :: cs) := by
            have hc := c.utf8Size_pos
            rw [byteSize_append, byteSize_cons]
            omega
          exact tokensFrom_of_last hpos (nextRound_none hcut)
  | some found =>
      obtain ⟨before, tail⟩ := found
      have hpos := lt_of_cut front hcut
      obtain hplain | ⟨lead, rfl, hlead⟩ | ⟨lead, rfl⟩ := backslash_cases before
      · simp [stretch_of_plain hcut hplain] at hstretch
      · have hround := nextRound_escaped hcut (getLast?_append_ne hfront hlead)
        have hliteral := (stretch_of_escaped hcut hlead).symm.trans hstretch
        cases hlater : cut openBraces tail with
        | none =>
            simp only [hlater] at hround hliteral
            obtain rfl := Stretch.last.inj hliteral
            rw [tokensFrom_of_literal hpos hround, tokensFrom_end, List.nil_append]
        | some found =>
            simp only [hlater] at hliteral
            split at hliteral <;> cases hliteral
      · simp [stretch_of_doubled hcut] at hstretch

/-- Where a stretch goes back, a slice by offsets ends before it starts. -/
theorem tokensFrom_of_stretch_backwards (hfront : front.getLast? ≠ some '\\')
    (hstretch : stretch part = .backwards) :
    ∃ start stop,
      stop < start ∧
      tokensFrom (LineIndex.ofSource (front ++ part)) (front ++ part) (byteSize front)
        (byteSize front) [] = .error (.slice start stop) := by
  obtain ⟨before, rest, inner, later, hcut, ⟨lead, rfl, hlead⟩, hlater, hinner⟩ :=
    exists_of_stretch_backwards hstretch
  have hround := nextRound_escaped hcut (getLast?_append_ne hfront hlead)
  simp only [hlater] at hround
  have hsource := eq_of_cuts front hcut hlater
  have hlast : (front ++ (lead ++ ['\\']) ++ (openBraces ++ inner)).getLast? = some '\\' := by
    rw [getLast?_append_eq (by simp [openBraces])]
    exact (getLast?_openBraces_append inner).mpr hinner
  have hbehind := lt_of_cut
    (front ++ (lead ++ ['\\']) ++ (openBraces ++ inner)) (cut_openBraces later)
  have hback := nextRound_backwards (cut_openBraces later) hlast
  rw [← hsource] at hbehind hback
  refine ⟨_, _, ?_, (tokensFrom_of_literal (lt_of_cut front hcut) hround).trans
    (tokensFrom_of_error hbehind hback)⟩
  have hpos : 0 < byteSize openBraces := by decide
  simp only [byteSize_append]
  omega

/-- One step of the main loop: the content before a tag, the tag, and the tokens behind it. -/
theorem tokensFrom_step {source after : List Char} {tag : Tag} (h : Reached source front part)
    (hstretch : stretch part = .upTo text rest)
    (htag : readTag (LineIndex.ofSource source) rest = .ok (tag, after)) :
    ∃ front',
      Reached source front' after ∧
      tokensFrom (LineIndex.ofSource source) source (byteSize front) (byteSize front) [] =
        match tokensFrom (LineIndex.ofSource source) source (byteSize front') (byteSize front') []
        with
        | .error halt => .error halt
        | .ok tokens =>
            .ok (contentToken (LineIndex.ofSource source) text part (openBraces ++ rest)
              ++ .tag tag :: tokens) := by
  obtain ⟨front', hreached⟩ := h.past_tag hstretch htag
  have hplace : offset source after = byteSize front' := by
    rw [hreached.source_eq, offset_append]
  refine ⟨front', hreached, ?_⟩
  obtain rfl := h.source_eq
  rw [tokensFrom_of_upTo h.getLast? hstretch, htag]
  simp only [placed, hplace]

/-- From a place that is reached on, the scan by offsets agrees with the scan. -/
theorem agrees_tokensFrom {source : List Char} (h : Reached source front part) :
    Agrees (scanFrom (LineIndex.ofSource source) part)
      (tokensFrom (LineIndex.ofSource source) source (byteSize front) (byteSize front) []) := by
  fun_induction scanFrom (LineIndex.ofSource source) part generalizing front with
  | case1 part hstretch =>
      obtain rfl := h.source_eq
      obtain ⟨start, stop, hlt, hback⟩ := tokensFrom_of_stretch_backwards h.getLast? hstretch
      rw [hback]
      exact .backwards hlt
  | case2 part text hstretch =>
      obtain rfl := h.source_eq
      rw [tokensFrom_of_stretch_last h.getLast? hstretch]
      exact .tokens _
  | case3 part text rest hstretch e htag =>
      obtain rfl := h.source_eq
      rw [tokensFrom_of_upTo h.getLast? hstretch, htag]
      exact .refused e
  | case4 part text rest hstretch tag after htag _ _ f hafter ih =>
      obtain ⟨front', hreached, hstep⟩ := tokensFrom_step h hstretch htag
      have hagrees := ih hreached
      rw [hafter] at hagrees
      rw [hstep]
      generalize tokensFrom (LineIndex.ofSource source) source (byteSize front')
        (byteSize front') [] = outcome at hagrees
      cases hagrees with
      | refused e => exact .refused e
      | backwards hlt => exact .backwards hlt
  | case5 part text rest hstretch tag after htag _ _ tokens hafter ih =>
      obtain ⟨front', hreached, hstep⟩ := tokensFrom_step h hstretch htag
      have hagrees := ih hreached
      rw [hafter] at hagrees
      rw [hstep]
      generalize tokensFrom (LineIndex.ofSource source) source (byteSize front')
        (byteSize front') [] = outcome at hagrees
      cases hagrees with
      | tokens ts => exact .tokens _

end Agreement

/-! ## Blanks -/

theorem controlEnd_eq (strips : Bool) (text : List Char) :
    controlEnd strips text = .ok (if strips then trimEnd text else text) := by
  cases strips with
  | false => rfl
  | true =>
      have htext : text = trimEnd text ++ (text.reverse.takeWhile isBlank).reverse := by
        rw [trimEnd, ← List.reverse_append, List.takeWhile_append_dropWhile, List.reverse_reverse]
      have hslice := slice_pieces [] (trimEnd text) (text.reverse.takeWhile isBlank).reverse
      rw [List.nil_append, ← htext] at hslice
      exact hslice

/-- Removing blanks makes no slice that is out of range. -/
theorem control_eq (stripped : Bool) (tokens : List Token) :
    control stripped tokens = .ok (trimTokens stripped tokens) := by
  induction tokens generalizing stripped with
  | nil => rfl
  | cons token tokens ih =>
      cases token with
      | tag tag =>
          rw [control, ih, trimTokens]
          rfl
      | content text span =>
          rw [control, controlEnd_eq, ih, trimTokens]
          rfl

/-- The scan by offsets agrees with the scan. -/
theorem agrees_tokenize (source : String) : Agrees (scan source) (tokenize source) := by
  have hstart : Reached source.toList [] source.toList := .start
  have hagrees := agrees_tokensFrom hstart
  rw [byteSize_nil] at hagrees
  unfold scan tokenize
  generalize tokensFrom (LineIndex.ofSource source.toList) source.toList 0 0 [] = outcome
    at hagrees ⊢
  cases hscan : scanFrom (LineIndex.ofSource source.toList) source.toList with
  | error f =>
      rw [hscan] at hagrees
      cases hagrees with
      | refused e => exact .refused e
      | backwards hlt => exact .backwards hlt
  | ok tokens =>
      rw [hscan] at hagrees
      cases hagrees with
      | tokens ts =>
          simp only [bind, Except.bind, control_eq]
          exact .tokens _

end ByOffset

/-! ## Outcomes -/

/-- A template has no answer exactly if its source has no tokens and no error. -/
theorem precompile_eq_backwards_iff (options : Spec.Options) (source : String) :
    (Spec.precompile options source).result = .error .backwards ↔
      scan source = .error .backwards := by
  unfold Spec.precompile parse
  cases hscan : scan source with
  | error f => simp
  | ok tokens =>
      dsimp only
      cases ofTokens tokens with
      | error e => simp
      | ok program =>
          dsimp only
          cases (Spec.compileSection options [] program).result with
          | error e => simp
          | ok main => simp

/--
A scan ends with tokens or with an error, and makes every slice in order, in bounds and between
characters, unless it comes to an escaped mustache such that a backslash stands right before the
next braces.  There a slice ends before it starts, and the template has no answer.
-/
theorem scan_outcome (source : String) :
    ((∃ tokens, scan source = .ok tokens ∧ ByOffset.tokenize source = .ok tokens) ∨
        (∃ e, scan source = .error (.refused e) ∧
          ByOffset.tokenize source = .error (.refused e)) ↔
      ¬ StepsBack source.toList) ∧
    (scan source = .error .backwards ↔ StepsBack source.toList) ∧
    ((∃ start stop, stop < start ∧ ByOffset.tokenize source = .error (.slice start stop)) ↔
      StepsBack source.toList) ∧
    (∀ options : Spec.Options,
      (Spec.precompile options source).result = .error .backwards ↔ StepsBack source.toList) ∧
    (∀ front x y z : List Char,
      Reached source.toList front
        (x ++ '\\' :: (openBraces ++ (y ++ '\\' :: (openBraces ++ z)))) →
      ¬ openBraces <:+: x → ¬ openBraces <:+: y → (front ++ x).getLast? ≠ some '\\' →
      StepsBack source.toList) := by
  have hback := scan_eq_backwards_iff source
  have hagrees := ByOffset.agrees_tokenize source
  refine ⟨?_, hback, ?_, fun options => (precompile_eq_backwards_iff options source).trans hback,
    fun front x y z => stepsBack_of_escapes⟩
  · rw [← hback]
    generalize scan source = scanned at hagrees ⊢
    generalize ByOffset.tokenize source = tokenized at hagrees ⊢
    cases hagrees with
    | tokens ts => simp
    | refused e => simp
    | backwards hlt => simp
  · rw [← hback]
    generalize scan source = scanned at hagrees ⊢
    generalize ByOffset.tokenize source = tokenized at hagrees ⊢
    cases hagrees with
    | tokens ts => simp
    | refused e => simp
    | backwards hlt => simpa using hlt

/-- A source with two escaped mustaches and no tag. -/
def twoEscapes : String :=
  String.ofList ("a".toList ++ '\\' :: (openBraces ++ ("b\x7d\x7d ".toList ++
    '\\' :: (openBraces ++ "c\x7d\x7d".toList))))

theorem twoEscapes_outcome :
    StepsBack twoEscapes.toList ∧
      (Spec.precompile default twoEscapes).result = .error .backwards ∧
      ¬ StepsBack escapes.toList := by
  obtain ⟨-, -, -, hresult, hescapes⟩ := scan_outcome twoEscapes
  have hback : StepsBack twoEscapes.toList := by
    apply hescapes [] "a".toList "b\x7d\x7d ".toList "c\x7d\x7d".toList
    · rw [twoEscapes, String.toList_ofList]
      exact .start
    · decide
    · decide
    · decide
  refine ⟨hback, (hresult default).mpr hback, ?_⟩
  exact (scan_outcome escapes).1.mp (.inl ⟨escapesTokens, by decide +kernel, by decide +kernel⟩)

end Template
end TemplateModules
