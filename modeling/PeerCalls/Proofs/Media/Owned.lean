import PeerCalls.Media.Payload
import PeerCalls.Proofs.Media.Plane

/-!
# Owning a frame

A frame is validated and then cut to the bytes or samples that it needs.  `Valid` says what
validation asks for, and `cut` what is kept.  Cutting a plane to what its layout needs leaves
just enough, and of a frame of some size this is never nothing; so a valid frame is valid after
it was cut, by the same rules, and whoever validates it again accepts it.
-/

namespace PeerCalls

/-- The fault is one of the frame itself: nothing is missing, and memory has not run out. -/
structure FrameError.Malformed (fault : FrameError) : Prop where
  complete : ∀ part, fault ≠ .missing part
  allocated : fault ≠ .outOfMemory

/-- What is cut to a length that it has is as long as that, and some of it is left. -/
theorem take_of_le {α : Type} {whole : Array α} {length : Nat} (hpos : 0 < length)
    (hlong : length ≤ whole.size) :
    (whole.take length).isEmpty = false ∧ (whole.take length).size = length := by
  have hsize : (whole.take length).size = length := by simpa using Nat.min_eq_left hlong
  refine ⟨?_, hsize⟩
  rw [Array.isEmpty_eq_false_iff_exists_mem]
  exact ⟨_, Array.getElem_mem (hsize ▸ hpos)⟩

namespace PlaneLayout

variable {layout : PlaneLayout} {plane : Array UInt8}

/-- The plane is there and has the bytes that the layout needs. -/
structure Holds (layout : PlaneLayout) (plane : Array UInt8) : Prop where
  nonempty : plane.isEmpty = false
  long : layout.need ≤ plane.size

/-- A plane that is there is refused unless it has the bytes that the layout needs. -/
theorem check_cases (layout : PlaneLayout) (hfull : plane.isEmpty = false) (name : String) :
    (¬ layout.Holds plane ∧ ∃ fault, fault.Malformed ∧ layout.check name plane = .error fault) ∨
      (layout.Holds plane ∧ layout.check name plane = .ok layout.need) := by
  rw [check_eq]
  split
  · rename_i hshort
    exact Or.inl ⟨fun h => Nat.not_le.mpr hshort h.long, _, ⟨by simp, by simp⟩, rfl⟩
  · rename_i hlong
    exact Or.inr ⟨⟨hfull, Nat.not_lt.mp hlong⟩, rfl⟩

theorem Holds.take (h : layout.Holds plane) (hneed : 0 < layout.need) :
    layout.Holds (plane.take layout.need) := by
  obtain ⟨hfull, hsize⟩ := take_of_le hneed h.long
  exact ⟨hfull, Nat.le_of_eq hsize.symm⟩

end PlaneLayout

namespace VideoFrame

variable (frame : VideoFrame)

/-- The frame with each plane cut to the bytes that its layout needs. -/
def cut : VideoFrame :=
  { frame with
    y := frame.y.take frame.yLayout.need
    u := frame.u.take frame.uLayout.need
    v := frame.v.take frame.vLayout.need
    alpha := frame.alpha.map (·.take frame.alphaLayout.need) }

/-- What validation asks of a frame. -/
structure Valid : Prop where
  width : frame.width ≠ 0
  height : frame.height ≠ 0
  y : frame.yLayout.Holds frame.y
  u : frame.uLayout.Holds frame.u
  v : frame.vLayout.Holds frame.v
  alpha : ∀ plane, frame.alpha = some plane → frame.alphaLayout.Holds plane

/-- All mandatory planes are there, and a plane that may be left out is not empty. -/
structure Complete : Prop where
  y : frame.y.isEmpty = false
  u : frame.u.isEmpty = false
  v : frame.v.isEmpty = false
  alpha : ∀ plane, frame.alpha = some plane → plane.isEmpty = false

variable {frame}

theorem Valid.complete (h : frame.Valid) : frame.Complete :=
  ⟨h.y.nonempty, h.u.nonempty, h.v.nonempty, fun plane hplane => (h.alpha plane hplane).nonempty⟩

theorem missingPlane?_eq_none_iff : frame.missingPlane? = none ↔ frame.Complete := by
  unfold missingPlane?
  constructor
  · intro h
    split at h
    · cases h
    split at h
    · cases h
    split at h
    · cases h
    split at h
    · cases h
    rename_i hy hu hv halpha
    refine ⟨by simpa using hy, by simpa using hu, by simpa using hv, fun plane hplane => ?_⟩
    simpa [hplane] using halpha
  · intro h
    have halpha : frame.alpha.any Array.isEmpty = false := by
      cases hframe : frame.alpha with
      | none => rfl
      | some plane => exact h.alpha plane hframe
    simp [h.y, h.u, h.v, halpha]

theorem checkAlpha_cases (hfull : ∀ plane, frame.alpha = some plane → plane.isEmpty = false) :
    (¬ (∀ plane, frame.alpha = some plane → frame.alphaLayout.Holds plane) ∧
      ∃ fault, fault.Malformed ∧ frame.checkAlpha = .error fault) ∨
    ((∀ plane, frame.alpha = some plane → frame.alphaLayout.Holds plane) ∧
      ∃ length, frame.checkAlpha = .ok length ∧
        frame.alpha.map (·.take length) = frame.alpha.map (·.take frame.alphaLayout.need)) := by
  unfold checkAlpha
  cases hframe : frame.alpha with
  | none => exact Or.inr ⟨by simp, 0, rfl, rfl⟩
  | some plane =>
      rcases frame.alphaLayout.check_cases (hfull plane hframe) "a" with
        ⟨hfails, fault, hfault, hcheck⟩ | ⟨hholds, hcheck⟩
      · exact Or.inl ⟨fun h => hfails (h plane rfl), fault, hfault, hcheck⟩
      · refine Or.inr ⟨fun other h => ?_, _, hcheck, rfl⟩
        obtain rfl := Option.some.inj h
        exact hholds

/-- Either a frame has a fault, for which it is refused, or it is valid and is cut. -/
theorem owned_cases (frame : VideoFrame) :
    (¬ frame.Valid ∧ ∃ fault, (frame.Complete → fault.Malformed) ∧
      frame.validate = .error fault ∧ frame.owned = .error fault) ∨
      (frame.Valid ∧ frame.validate = .ok () ∧ frame.owned = .ok frame.cut) := by
  simp only [validate, owned, checkPlanes, bind, Except.bind]
  cases hmissing : frame.missingPlane? with
  | some part =>
      refine Or.inl ⟨fun hvalid => ?_, _, fun hcomplete => ?_, rfl, rfl⟩
      · rw [missingPlane?_eq_none_iff.mpr hvalid.complete] at hmissing
        cases hmissing
      · rw [missingPlane?_eq_none_iff.mpr hcomplete] at hmissing
        cases hmissing
  | none =>
      have hcomplete := missingPlane?_eq_none_iff.mp hmissing
      by_cases hempty : frame.width = 0 ∨ frame.height = 0
      · simp only [if_pos hempty]
        exact Or.inl ⟨fun hvalid => hempty.elim hvalid.width hvalid.height, _,
          fun _ => ⟨by simp, by simp⟩, rfl, rfl⟩
      obtain ⟨hwidth, hheight⟩ := not_or.mp hempty
      simp only [if_neg hempty]
      rcases frame.yLayout.check_cases hcomplete.y "y" with
        ⟨hfails, fault, hfault, hy⟩ | ⟨hyholds, hy⟩
      · simp only [hy]
        exact Or.inl ⟨fun hvalid => hfails hvalid.y, fault, fun _ => hfault, rfl, rfl⟩
      rcases frame.uLayout.check_cases hcomplete.u "u" with
        ⟨hfails, fault, hfault, hu⟩ | ⟨huholds, hu⟩
      · simp only [hy, hu]
        exact Or.inl ⟨fun hvalid => hfails hvalid.u, fault, fun _ => hfault, rfl, rfl⟩
      rcases frame.vLayout.check_cases hcomplete.v "v" with
        ⟨hfails, fault, hfault, hv⟩ | ⟨hvholds, hv⟩
      · simp only [hy, hu, hv]
        exact Or.inl ⟨fun hvalid => hfails hvalid.v, fault, fun _ => hfault, rfl, rfl⟩
      rcases checkAlpha_cases hcomplete.alpha with
        ⟨hfails, fault, hfault, ha⟩ | ⟨haholds, length, ha, hcut⟩
      · simp only [hy, hu, hv, ha]
        exact Or.inl ⟨fun hvalid => hfails hvalid.alpha, fault, fun _ => hfault, rfl, rfl⟩
      · simp only [hy, hu, hv, ha, hcut]
        exact Or.inr ⟨⟨hwidth, hheight, hyholds, huholds, hvholds, haholds⟩, rfl, rfl⟩

/-- Half of a size is rounded up, for the largest size as well. -/
theorem toNat_halved (size : UInt32) : (halved size).toNat = (size.toNat + 1) / 2 := by
  have hbound := size.toNat_lt
  have htwo : (2 : UInt32).toNat = 2 := rfl
  simp only [halved, UInt32.toNat_add, UInt32.toNat_div, UInt32.toNat_mod, htwo]
  omega

theorem halved_ne_zero {size : UInt32} (h : size ≠ 0) : halved size ≠ 0 := by
  intro hzero
  have hhalf : (halved size).toNat = 0 := congrArg UInt32.toNat hzero
  have hsize : size.toNat ≠ 0 := fun hnat => h (UInt32.toNat_inj.mp hnat)
  rw [toNat_halved] at hhalf
  omega

/-- A valid frame stays valid when it is cut. -/
theorem Valid.cut (h : frame.Valid) : frame.cut.Valid := by
  -- the layouts are those of the whole frame, because cutting leaves sizes and strides alone
  have hneed : 0 < frame.yLayout.need := PlaneLayout.need_pos h.width h.height
  have hchroma : ∀ stride, 0 < (PlaneLayout.mk frame.chromaWidth frame.chromaHeight stride).need :=
    fun stride => PlaneLayout.need_pos (halved_ne_zero h.width) (halved_ne_zero h.height)
  refine ⟨h.width, h.height, h.y.take hneed, h.u.take (hchroma _), h.v.take (hchroma _), ?_⟩
  intro plane hplane
  obtain ⟨whole, hwhole, rfl⟩ := Option.map_eq_some_iff.mp hplane
  exact (h.alpha whole hwhole).take (PlaneLayout.need_pos h.width h.height)

end VideoFrame

namespace AudioFrame

variable (frame : AudioFrame) (config : Config)

/-- The samples that the frame needs. -/
def need : Nat := frame.sampleCount.toNat * frame.channels.toNat

/-- The frame with its samples cut to those that it needs. -/
def cut : AudioFrame := { frame with pcm := frame.pcm.take frame.need }

/-- What validation asks of a frame. -/
structure Valid : Prop where
  nonempty : frame.pcm.isEmpty = false
  channels : frame.channels = 1 ∨ frame.channels = 2
  rate : config.supportsSamplingRate frame.samplingRate = true
  duration : frame.hasAllowedDuration = true
  long : frame.need ≤ frame.pcm.size

variable {frame config}

/-- A frame of an allowed duration has its samples counted in a word, ten thousand times. -/
theorem scaled_of_duration (h : frame.hasAllowedDuration = true) :
    ∃ scaled : UInt64, scaled.toNat = frame.sampleCount.toNat * 10000 ∧
      durations.contains (scaled / frame.samplingRate.toUInt64) = true := by
  unfold hasAllowedDuration at h
  cases hproduct : checkedProduct frame.sampleCount 10000 with
  | none =>
      rw [hproduct] at h
      cases h
  | some scaled =>
      rw [hproduct] at h
      exact ⟨scaled, checkedProduct_eq_some_iff.mp hproduct, (Bool.and_eq_true_iff.mp h).2⟩

/-- The samples of all channels are fewer than that, so counting them does not overflow. -/
theorem requiredLength?_of_duration (h : frame.hasAllowedDuration = true) :
    ∃ required : UInt64, frame.requiredLength? = some required ∧ required.toNat = frame.need := by
  obtain ⟨scaled, hscaled, -⟩ := scaled_of_duration h
  -- the channels are at most 255, while the duration was computed with a factor of 10000
  have hchannels : frame.channels.toNat ≤ 10000 :=
    Nat.le_of_lt (Nat.lt_trans frame.channels.toNat_lt (by decide))
  have hneed : frame.need < UInt64.size :=
    calc frame.need
        ≤ frame.sampleCount.toNat * 10000 := Nat.mul_le_mul_left _ hchannels
      _ = scaled.toNat := hscaled.symm
      _ < UInt64.size := scaled.toNat_lt
  have hword : (UInt64.ofNat frame.need).toNat = frame.need := UInt64.toNat_ofNat_of_lt hneed
  refine ⟨UInt64.ofNat frame.need, ?_, hword⟩
  rw [requiredLength?, checkedProduct_eq_some_iff, hword, UInt8.toNat_toUInt64, need]

theorem Valid.need_pos (h : frame.Valid config) : 0 < frame.need := by
  obtain ⟨scaled, hscaled, hduration⟩ := scaled_of_duration h.duration
  have hcount : frame.sampleCount.toNat ≠ 0 := by
    intro hzero
    rw [hzero, Nat.zero_mul] at hscaled
    obtain rfl : scaled = 0 := UInt64.toNat_inj.mp hscaled
    rw [UInt64.zero_div] at hduration
    exact absurd hduration (by decide)
  have hchannels : 0 < frame.channels.toNat := by
    rcases h.channels with hmono | hstereo
    · rw [hmono]
      decide
    · rw [hstereo]
      decide
  exact Nat.mul_pos (Nat.pos_of_ne_zero hcount) hchannels

/-- Either a frame has a fault, for which it is refused, or it is valid and is cut. -/
theorem owned_cases (frame : AudioFrame) (config : Config) :
    (¬ frame.Valid config ∧ ∃ fault, (frame.pcm.isEmpty = false → fault.Malformed) ∧
      frame.validate config = .error fault ∧ frame.owned config = .error fault) ∨
    (frame.Valid config ∧ frame.validate config = .ok () ∧
      frame.owned config = .ok frame.cut) := by
  unfold validate owned check
  split
  · rename_i hempty
    refine Or.inl ⟨fun h => ?_, _, fun hfull => ?_, rfl, rfl⟩
    · rw [h.nonempty] at hempty
      cases hempty
    · rw [hfull] at hempty
      cases hempty
  rename_i hfull
  split
  · rename_i hchannels
    exact Or.inl ⟨fun h => h.channels.elim hchannels.1 hchannels.2, _, fun _ => ⟨by simp, by simp⟩,
      rfl, rfl⟩
  rename_i hchannels
  split
  · rename_i hrate
    refine Or.inl ⟨fun h => ?_, _, fun _ => ⟨by simp, by simp⟩, rfl, rfl⟩
    rw [h.rate] at hrate
    cases hrate
  rename_i hrate
  split
  · rename_i hduration
    refine Or.inl ⟨fun h => ?_, _, fun _ => ⟨by simp, by simp⟩, rfl, rfl⟩
    rw [h.duration] at hduration
    cases hduration
  rename_i hduration
  have hallowed : frame.hasAllowedDuration = true := by simpa using hduration
  obtain ⟨required, hrequired, hneed⟩ := requiredLength?_of_duration hallowed
  simp only [hrequired, hneed]
  split
  · rename_i hshort
    exact Or.inl ⟨fun h => Nat.not_le.mpr hshort h.long, _, fun _ => ⟨by simp, by simp⟩,
      rfl, rfl⟩
  · rename_i hlong
    have hone : frame.channels = 1 ∨ frame.channels = 2 :=
      Decidable.or_iff_not_not_and_not.mpr hchannels
    exact Or.inr ⟨⟨by simpa using hfull, hone, by simpa using hrate, hallowed,
      Nat.not_lt.mp hlong⟩, rfl, rfl⟩

/-- A valid frame stays valid when it is cut. -/
theorem Valid.cut (h : frame.Valid config) : frame.cut.Valid config := by
  obtain ⟨hfull, hsize⟩ := take_of_le h.need_pos h.long
  exact ⟨hfull, h.channels, h.rate, h.duration, Nat.le_of_eq hsize.symm⟩

/-- Of the configuration only the sampling rates decide. -/
theorem Valid.of_samplingRates {other : Config} (h : frame.Valid config)
    (hrates : config.samplingRates = other.samplingRates) : frame.Valid other := by
  refine ⟨h.nonempty, h.channels, ?_, h.duration, h.long⟩
  rw [Config.supportsSamplingRate, ← hrates]
  exact h.rate

/-- The shortest frame at the lowest rate, with a sample to spare. -/
def click : AudioFrame := ⟨.replicate 21 0, 20, 1, 8000⟩

end AudioFrame

namespace Payload

/-- What validation asks of a frame. -/
def Valid (config : Config) : Payload → Prop
  | audio frame => frame.Valid config
  | video frame => frame.Valid

/-- The frame cut to the bytes or samples that it needs. -/
def cut : Payload → Payload
  | audio frame => audio frame.cut
  | video frame => video frame.cut

@[simp] theorem kind_cut (payload : Payload) : payload.cut.kind = payload.kind := by
  cases payload <;> rfl

variable {config : Config} {payload : Payload}

/-- The samples are there, or the planes. -/
def Complete : Payload → Prop
  | audio frame => frame.pcm.isEmpty = false
  | video frame => frame.Complete

theorem missingPart?_eq_none_iff : payload.missingPart? = none ↔ payload.Complete := by
  cases payload with
  | audio frame => simp [missingPart?, Complete]
  | video frame => exact VideoFrame.missingPlane?_eq_none_iff

theorem Valid.complete (h : payload.Valid config) : payload.Complete := by
  cases payload with
  | audio frame => exact h.nonempty
  | video frame => exact VideoFrame.Valid.complete h

/-- Either a frame has a fault, for which it is refused, or it is valid and is cut. -/
theorem owned_cases (payload : Payload) (config : Config) :
    (¬ payload.Valid config ∧ ∃ fault, (payload.Complete → fault.Malformed) ∧
      payload.validate config = .error fault ∧ payload.owned config = .error fault) ∨
    (payload.Valid config ∧ payload.validate config = .ok () ∧
      payload.owned config = .ok payload.cut) := by
  cases payload with
  | audio frame =>
      rcases frame.owned_cases config with
        ⟨hfails, fault, hfault, hvalidate, howned⟩ | ⟨hvalid, hvalidate, howned⟩
      · exact Or.inl ⟨hfails, fault, hfault, hvalidate, by simp only [owned, howned]; rfl⟩
      · exact Or.inr ⟨hvalid, hvalidate, by simp only [owned, howned]; rfl⟩
  | video frame =>
      rcases frame.owned_cases with
        ⟨hfails, fault, hfault, hvalidate, howned⟩ | ⟨hvalid, hvalidate, howned⟩
      · exact Or.inl ⟨hfails, fault, hfault, hvalidate, by simp only [owned, howned]; rfl⟩
      · exact Or.inr ⟨hvalid, hvalidate, by simp only [owned, howned]; rfl⟩

theorem validate_eq_ok_iff : payload.validate config = .ok () ↔ payload.Valid config := by
  rcases payload.owned_cases config with
    ⟨hfails, fault, -, hvalidate, -⟩ | ⟨hvalid, hvalidate, -⟩
  · exact iff_of_false (by simp [hvalidate]) hfails
  · exact iff_of_true hvalidate hvalid

theorem Valid.cut (h : payload.Valid config) : payload.cut.Valid config := by
  cases payload with
  | audio frame => exact AudioFrame.Valid.cut h
  | video frame => exact VideoFrame.Valid.cut h

theorem Valid.of_samplingRates {other : Config} (h : payload.Valid config)
    (hrates : config.samplingRates = other.samplingRates) : payload.Valid other := by
  cases payload with
  | audio frame => exact AudioFrame.Valid.of_samplingRates h hrates
  | video frame => exact h

end Payload

end PeerCalls
