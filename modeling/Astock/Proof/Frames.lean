import Astock.Spec.Frame

/-!
# Frames on the wire

* `readFrame_frame`: a frame is read back as its value, whatever comes after it.
* `readFrame_cut`: **a frame that is cut** is reported, unless the cut is inside its length:
  then the stream looks closed.
* `frames_told`: so what was sent is received, and a stream that is cut is told from one that was
  closed exactly when the cut is not inside a length.
-/

namespace Astock

open Stream

variable {V : Type} {encode : V → List UInt8} {decode : List UInt8 → Except String V}

/-- The value has a frame. -/
def Sized (encode : V → List UInt8) (value : V) : Prop :=
  1 ≤ (encode value).length ∧ (encode value).length ≤ maxFrameBytes

instance (value : V) : Decidable (Sized encode value) := inferInstanceAs (Decidable (_ ∧ _))

def frame (encode : V → List UInt8) (value : V) : List UInt8 :=
  leBytes 4 (encode value).length ++ encode value

theorem length_frame (value : V) : (frame encode value).length = 4 + (encode value).length := by
  unfold frame
  rw [List.length_append, length_leBytes]

theorem writeFrame_sized {value : V} (h : Sized encode value) :
    writeFrame encode value = .ok (frame encode value) := by
  obtain ⟨hpos, hmax⟩ := h
  have hempty : (encode value).isEmpty = false := by
    cases hvalue : encode value with
    | nil => rw [hvalue] at hpos; simp at hpos
    | cons b bs => rfl
  unfold writeFrame
  simp only [hempty, if_neg (not_lt.2 hmax)]
  rfl

/-- The length of a frame is the length of its body. -/
theorem ofLeBytes_frame {value : V} (h : Sized encode value) :
    ofLeBytes (leBytes 4 (encode value).length) = (encode value).length := by
  have hmax := h.2
  unfold maxFrameBytes at hmax
  exact ofLeBytes_leBytes 4 _ (by norm_num; omega)

/-! ## One frame -/

/-- After the length of a sized value, the body is asked for. -/
theorem readFrame_length (decode : List UInt8 → Except String V) {value : V}
    (h : Sized encode value) {rest : List UInt8} {source : Source UInt8}
    (hcontent : source.content = leBytes 4 (encode value).length ++ rest) :
    ∃ body : Source UInt8, body.content = rest ∧ readFrame decode source =
      match readExact (encode value).length body with
      | (none, reader) => (.error .unexpectedEof, reader)
      | (some bytes, reader) =>
        match decode bytes with
        | .error message => (.error (.json message), reader)
        | .ok value => (.ok (some value), reader) := by
  obtain ⟨body, hread, hbody⟩ := readExact_append hcontent
  rw [length_leBytes] at hread
  refine ⟨body, hbody, ?_⟩
  have hpos : (encode value).length ≠ 0 := by
    have := h.1
    omega
  unfold readFrame
  rw [hread]
  dsimp only
  rw [ofLeBytes_frame h]
  exact (if_neg hpos).trans (if_neg (not_lt.2 h.2))

/-- **A frame is read back** as its value. -/
theorem readFrame_frame (hinverse : ∀ value, decode (encode value) = .ok value) {value : V}
    (h : Sized encode value) {rest : List UInt8} {source : Source UInt8}
    (hcontent : source.content = frame encode value ++ rest) :
    ∃ reader : Source UInt8, readFrame decode source = (.ok (some value), reader) ∧
      reader.content = rest := by
  unfold frame at hcontent
  rw [List.append_assoc] at hcontent
  obtain ⟨body, hbody, hframe⟩ := readFrame_length decode h hcontent
  obtain ⟨reader, hread, hrest⟩ := readExact_append hbody
  refine ⟨reader, ?_, hrest⟩
  rw [hframe, hread]
  simp only [hinverse]

/-- **A frame that is cut** is reported, but for a cut inside its length. -/
theorem readFrame_cut (decode : List UInt8 → Except String V) {value : V} (h : Sized encode value)
    {r : ℕ} (hr : r < (frame encode value).length) {source : Source UInt8}
    (hcontent : source.content = (frame encode value).take r) :
    (readFrame decode source).1 = if r < 4 then .ok none else .error .unexpectedEof := by
  have hlength : source.content.length = r := by
    rw [hcontent, List.length_take]
    omega
  by_cases hprefix : r < 4
  · unfold readFrame
    rw [readExact_of_lt (by omega : source.content.length < 4), if_pos hprefix]
  · rw [length_frame] at hr
    have hsplit : source.content =
        leBytes 4 (encode value).length ++ (encode value).take (r - 4) := by
      rw [hcontent]
      unfold frame
      rw [List.take_append, length_leBytes, List.take_of_length_le]
      rw [length_leBytes]
      omega
    obtain ⟨body, hbody, hframe⟩ := readFrame_length decode h hsplit
    have hshort : body.content.length < (encode value).length := by
      rw [hbody, List.length_take]
      omega
    rw [hframe, readExact_of_lt hshort, if_neg hprefix]

/-! ## A stream of frames -/

/-- Whole frames are read one after the other. -/
theorem readFrames_frames (hinverse : ∀ value, decode (encode value) = .ok value) {values : List V}
    (h : ∀ value ∈ values, Sized encode value) {rest : List UInt8} {source : Source UInt8}
    (hcontent : source.content = (values.map (frame encode)).flatten ++ rest) :
    ∃ reader : Source UInt8, reader.content = rest ∧ ∀ n,
      readFrames decode (values.length + n) source =
        values.map (fun value => .ok (some value)) ++ readFrames decode n reader := by
  induction values generalizing source with
  | nil => exact ⟨source, hcontent, fun n => by rw [List.length_nil, Nat.zero_add]; rfl⟩
  | cons value values ih =>
    rw [List.map_cons, List.flatten_cons, List.append_assoc] at hcontent
    obtain ⟨next, hread, hnext⟩ := readFrame_frame hinverse (h value List.mem_cons_self) hcontent
    obtain ⟨reader, hreader, hrest⟩ := ih (fun v hv => h v (List.mem_cons_of_mem _ hv)) hnext
    refine ⟨reader, hreader, fun n => ?_⟩
    have hstep : (value :: values).length + n = (values.length + n) + 1 := by
      rw [List.length_cons]
      omega
    rw [hstep, readFrames, hread]
    show _ :: readFrames decode (values.length + n) next = _
    rw [hrest n]
    rfl

/-- Where a cut falls: behind how many frames, and how far into the next. -/
def place : ℕ → List (List UInt8) → ℕ × ℕ
  | cut, [] => (0, cut)
  | cut, f :: frames =>
    if cut < f.length then (0, cut)
    else ((place (cut - f.length) frames).1 + 1, (place (cut - f.length) frames).2)

/-- What is before a cut: some whole values, and a piece of the frame of the next. -/
theorem place_spec {values : List V} {cut : ℕ}
    (h : cut < ((values.map (frame encode)).flatten).length) :
    ∃ before value after, values = before ++ value :: after ∧
      before.length = (place cut (values.map (frame encode))).1 ∧
      (place cut (values.map (frame encode))).2 < (frame encode value).length ∧
      ((values.map (frame encode)).flatten).take cut = (before.map (frame encode)).flatten ++
        (frame encode value).take (place cut (values.map (frame encode))).2 := by
  induction values generalizing cut with
  | nil => simp at h
  | cons value values ih =>
    rw [List.map_cons, List.flatten_cons] at h ⊢
    rw [List.length_append] at h
    unfold place
    by_cases hcut : cut < (frame encode value).length
    · simp only [if_pos hcut]
      refine ⟨[], value, values, rfl, rfl, hcut, ?_⟩
      rw [List.take_append_of_le_length (by omega)]
      rfl
    · simp only [if_neg hcut]
      obtain ⟨before, next, after, hvalues, hlength, hinside, htake⟩ :=
        ih (by omega : cut - (frame encode value).length < _)
      refine ⟨value :: before, next, after, ?_, ?_, hinside, ?_⟩
      · rw [hvalues]
        rfl
      · rw [List.length_cons, hlength]
      · rw [List.take_append, List.take_of_length_le (by omega), htake, List.map_cons,
          List.flatten_cons, List.append_assoc]

/-- All values are read, and then the end of the stream. -/
def DeliveredAll (decode : List UInt8 → Except String V) (values : List V) (source : Source UInt8) :
    Prop :=
  readFrames decode (values.length + 1) source =
    values.map (fun value => .ok (some value)) ++ [.ok none]

/-- The values before the cut are read, and then the end of the stream if the cut is between two
frames, and an error if it is inside one. -/
def Told (decode : List UInt8 → Except String V) (values : List V) (frames : List (List UInt8))
    (cut : ℕ) (source : Source UInt8) : Prop :=
  ∃ last, readFrames decode ((place cut frames).1 + 1) source =
      (values.take (place cut frames).1).map (fun value => .ok (some value)) ++ [last] ∧
    if (place cut frames).2 = 0 then last = .ok none else ∃ e, last = .error e

/-- **What was sent is received**, however it is cut into chunks; and a stream that ends early is
told from one that was closed exactly when it does not end inside a length. -/
theorem frames_told (encode : V → List UInt8) (decode : List UInt8 → Except String V)
    (hinverse : ∀ value, decode (encode value) = .ok value) (values : List V)
    (hsized : ∀ value ∈ values, Sized encode value) :
    ∃ frames, values.mapM (writeFrame encode) = .ok frames ∧
      (∀ source : Source UInt8, source.content = frames.flatten → DeliveredAll decode values source) ∧
      ∀ cut < frames.flatten.length, ∀ source : Source UInt8,
        source.content = frames.flatten.take cut →
          (Told decode values frames cut source ↔
            ¬ (1 ≤ (place cut frames).2 ∧ (place cut frames).2 ≤ 3)) := by
  refine ⟨values.map (frame encode), ?_, fun source hsource => ?_, fun cut hcut source hsource => ?_⟩
  · clear hinverse
    induction values with
    | nil => rfl
    | cons value values ih =>
      rw [List.mapM_cons, writeFrame_sized (hsized value List.mem_cons_self),
        ih fun v hv => hsized v (List.mem_cons_of_mem _ hv)]
      rfl
  · rw [← List.append_nil (List.flatten _)] at hsource
    obtain ⟨reader, hreader, hread⟩ := readFrames_frames hinverse hsized hsource
    unfold DeliveredAll
    have hshort : reader.content.length < 4 := by
      rw [hreader]
      decide
    rw [hread 1]
    show _ ++ [(readFrame decode reader).1] = _
    rw [readFrame, readExact_of_lt hshort]
  · obtain ⟨before, value, after, hvalues, hlength, hinside, htake⟩ := place_spec hcut
    have hbefore : ∀ v ∈ before, Sized encode v := fun v hv =>
      hsized v (by rw [hvalues]; exact List.mem_append_left _ hv)
    have hvalue : Sized encode value :=
      hsized value (by rw [hvalues]; exact List.mem_append_right _ List.mem_cons_self)
    obtain ⟨reader, hreader, hread⟩ := readFrames_frames hinverse hbefore (hsource.trans htake)
    have hlast := readFrame_cut decode hvalue hinside hreader
    set r := (place cut (values.map (frame encode))).2 with hr
    have hreads : readFrames decode ((place cut (values.map (frame encode))).1 + 1) source =
        (values.take (place cut (values.map (frame encode))).1).map (fun v => .ok (some v)) ++
          [(readFrame decode reader).1] := by
      rw [← hlength, hread 1, hvalues, List.take_left]
      rfl
    unfold Told
    rw [hreads, hlast, ← hr]
    constructor
    · rintro ⟨last, heq, htold⟩ ⟨hone, hthree⟩
      obtain rfl := List.singleton_injective (List.append_cancel_left heq)
      rw [if_neg (by omega), if_pos (by omega)] at htold
      obtain ⟨e, he⟩ := htold
      cases he
    · intro hcutsite
      refine ⟨_, rfl, ?_⟩
      by_cases hzero : r = 0
      · rw [if_pos hzero, if_pos (by omega)]
      · rw [if_neg hzero, if_neg (by omega)]
        exact ⟨_, rfl⟩

/-! ## A message that is lost -/

/-- The JSON of a truth value. -/
def encodeBool (b : Bool) : List UInt8 := (toString b).toUTF8.toList

def decodeBool (bytes : List UInt8) : Except String Bool :=
  if bytes = encodeBool true then .ok true
  else if bytes = encodeBool false then .ok false
  else .error "expected a boolean"

theorem decodeBool_encodeBool (b : Bool) : decodeBool (encodeBool b) = .ok b := by
  cases b <;> decide +kernel

theorem booleans_told : ∃ frames, [true, false].mapM (writeFrame encodeBool) = .ok frames ∧
    (∀ source : Source UInt8, source.content = frames.flatten →
      DeliveredAll decodeBool [true, false] source) ∧
    ∀ cut < frames.flatten.length, ∀ source : Source UInt8,
      source.content = frames.flatten.take cut →
        (Told decodeBool [true, false] frames cut source ↔
          ¬ (1 ≤ (place cut frames).2 ∧ (place cut frames).2 ≤ 3)) :=
  frames_told encodeBool decodeBool decodeBool_encodeBool [true, false] (by decide +kernel)

/-- **A cut inside a length** looks like the end of the stream. -/
theorem cutLength_lost :
    ¬ ∀ (values : List Bool) (frames : List (List UInt8)) (cut : ℕ) (source : Source UInt8),
      values.mapM (writeFrame encodeBool) = .ok frames → cut < frames.flatten.length →
        source.content = frames.flatten.take cut → Told decodeBool values frames cut source := by
  intro h
  have hframes : [true].mapM (writeFrame encodeBool) = .ok [frame encodeBool true] := by
    decide +kernel
  obtain ⟨frames, hmap, -, htold⟩ :=
    frames_told encodeBool decodeBool decodeBool_encodeBool [true] (by decide +kernel)
  obtain rfl := Except.ok.inj (hframes.symm.trans hmap)
  have hcut : 2 < [frame encodeBool true].flatten.length := by decide
  have hcontent := Source.content_trickle ([frame encodeBool true].flatten.take 2)
  refine (htold 2 hcut _ hcontent).1 (h [true] _ 2 _ hframes hcut hcontent) ?_
  decide

end Astock
