import Sancus.Types.Parse

namespace Sancus.Types

open CModel

/-!
# Types — conversions within bounds

The bounds are of the type that is converted from, and nothing relates them to the range of the
one that is converted to: the cast keeps the value only if that is within the range as well.

* `Preserves` — what is stored is the value, and within the bounds;
* `preserves_iff_fits` — so it does exactly with the values that the new type can hold;
* `getGeleStrto_preserves_iff_fits` — the same for the number a string denotes.
-/

/-- What a conversion within bounds should do: store the value it is given, by `src`, if that is
    within the bounds, or fail and store nothing. -/
structure Preserves {T : IntType} (src : Int → Prop) (a b : Int) (out : Cell T)
    (r : Bool × Cell T) : Prop where
  stored : r.1 = true → ∀ w ∈ r.2, src w ∧ a ≤ w ∧ w ≤ b
  kept : r.1 = false → r.2 = out

variable {T0 T1 : IntType} {v a b : T0.Value} {out : Cell T1} {s : Option CString} {z : Int}

theorem getNumericGeleCast_eq (v a b : T0.Value) (out : Cell T1) :
    getNumericGeleCast T0 T1 v a b out =
      if (a : Int) ≤ v ∧ (v : Int) ≤ b then (true, store out (T1.conv v)) else (false, out) := by
  simp [getNumericGeleCast, getNumericCmp2Cast, getConverted]

/-- All depends on the result of the cast. -/
theorem preserves_iff (src : Int → Prop) :
    Preserves src a b out (getNumericGeleCast T0 T1 v a b out) ↔
      (out ≠ none → (a : Int) ≤ v → (v : Int) ≤ b →
        src (T1.conv v) ∧ (a : Int) ≤ T1.conv v ∧ (T1.conv v : Int) ≤ b) := by
  rw [getNumericGeleCast_eq]
  refine ⟨?_, ?_⟩
  · intro h hout ha hb
    obtain ⟨x, rfl⟩ := Option.ne_none_iff_exists'.mp hout
    exact h.stored (by simp [ha, hb]) (T1.conv v) (by simp [ha, hb, store])
  · intro h
    split
    next hab =>
      refine ⟨fun _ w hw => ?_, by simp⟩
      cases out with
      | none => simp [store] at hw
      | some x =>
        obtain rfl : T1.conv v = w := by simpa [store] using hw
        exact h (by simp) hab.1 hab.2
    next => exact ⟨by simp, fun _ => rfl⟩

/-- A value that is within the bounds but not in the range of the new type is stored as another
    one. -/
theorem preserves_iff_fits :
    Preserves (· = (v : Int)) a b out (getNumericGeleCast T0 T1 v a b out) ↔
      (out ≠ none → (a : Int) ≤ v → (v : Int) ≤ b → T1.Fits v) := by
  rw [preserves_iff]
  refine imp_congr_right fun _ => forall₂_congr fun ha hb => ?_
  rw [← IntType.conv_eq_iff]
  exact and_iff_left_of_imp fun h => by rw [h]; exact ⟨ha, hb⟩

/-! ### Strings -/

theorem getGeleStrto_denotes (hs : T0.signed = true) (h : Denotes s z)
    (f1 : (v a b : T0.Value) → Cell T1 → Bool × Cell T1) :
    getGeleStrto (getStrto (strto T0)) f1 s a b out = f1 (T0.clamp z) a b out := by
  simp [getGeleStrto, getStrto_signed hs h, store]

theorem getGeleStrto_refuses (h : ∀ z, ¬ Denotes s z)
    (f1 : (v a b : T0.Value) → Cell T1 → Bool × Cell T1) :
    getGeleStrto (getStrto (strto T0)) f1 s a b out = (false, out) := by
  obtain ⟨r, hr⟩ := getStrto_refuses h (some (T0.conv 0))
  rw [getGeleStrto, hr]

/-- Of a string, it is the number after it has been cut that is compared with the bounds; what has
    been cut does not fit the new type either. -/
theorem getGeleStrto_preserves_iff_fits (hs : T0.signed = true)
    (hsub : ∀ z, T1.Fits z → T0.Fits z) :
    Preserves (Denotes s) a b out
        (getGeleStrto (getStrto (strto T0)) (getNumericGeleCast T0 T1) s a b out) ↔
      (out ≠ none → ∀ z, Denotes s z → (a : Int) ≤ T0.clamp z → (T0.clamp z : Int) ≤ b →
        T1.Fits z) := by
  by_cases h : ∃ z, Denotes s z
  · obtain ⟨z, hz⟩ := h
    rw [getGeleStrto_denotes hs hz, preserves_iff]
    refine imp_congr_right fun _ => ?_
    refine ⟨?_, ?_⟩
    · intro hstored z' hz' ha hb
      obtain rfl := hz.unique hz'
      rw [hz.unique (hstored ha hb).1]
      exact (T1.conv _).2
    · intro hfits ha hb
      have hz1 := hfits z hz ha hb
      have hcut := IntType.clamp_eq_iff.mpr (hsub z hz1)
      rw [hcut] at ha hb ⊢
      rw [IntType.conv_eq_iff.mpr hz1]
      exact ⟨hz, ha, hb⟩
  · have hnone := not_exists.mp h
    rw [getGeleStrto_refuses hnone]
    exact iff_of_true ⟨by simp, fun _ => rfl⟩ fun _ z hz => absurd hz (hnone z)

/-! ### The functions -/

/-- What `sancus_get_urll` and its kin should do with a value, and with a string. -/
abbrev PreservesValue (f : (v a b : T0.Value) → Cell T1 → Bool × Cell T1) (v a b : T0.Value)
    (out : Cell T1) : Prop :=
  Preserves (· = (v : Int)) a b out (f v a b out)

abbrev PreservesNumber (f : Option CString → (a b : T0.Value) → Cell T1 → Bool × Cell T1)
    (s : Option CString) (a b : T0.Value) (out : Cell T1) : Prop :=
  Preserves (Denotes s) a b out (f s a b out)

/-- The value is not within the bounds, or the new type can hold it. -/
abbrev FitsWithin (T1 : IntType) (v a b : T0.Value) : Prop :=
  (a : Int) ≤ v → (v : Int) ≤ b → T1.Fits v

/-- The same for the number of a string, as it is after it has been cut. -/
abbrev NumberFitsWithin (T1 : IntType) (s : Option CString) (a b : T0.Value) : Prop :=
  ∀ z, Denotes s z → (a : Int) ≤ T0.clamp z → (T0.clamp z : Int) ≤ b → T1.Fits z

/-- **The conversions within bounds**: each keeps the value, if it has somewhere to store it,
    precisely if the value is not within the bounds or the new type can hold it. -/
theorem get_within_preserves_iff (vl al bl : IntType.long.Value)
    (vll all bll : IntType.longLong.Value) (vzu azu bzu : IntType.sizeT.Value)
    (vzd azd bzd : IntType.ssizeT.Value) (s : Option CString) (u : Cell .unsignedInt)
    (d : Cell .int) :
    (PreservesValue sancusGetUrll vll all bll u ↔
      (u ≠ none → FitsWithin .unsignedInt vll all bll)) ∧
    (PreservesValue sancusGetUrzu vzu azu bzu u ↔
      (u ≠ none → FitsWithin .unsignedInt vzu azu bzu)) ∧
    (PreservesValue sancusGetUrzd vzd azd bzd u ↔
      (u ≠ none → FitsWithin .unsignedInt vzd azd bzd)) ∧
    (PreservesValue sancusGetDrl vl al bl d ↔ (d ≠ none → FitsWithin .int vl al bl)) ∧
    (PreservesValue sancusGetDrll vll all bll d ↔ (d ≠ none → FitsWithin .int vll all bll)) ∧
    (PreservesValue sancusGetDrzu vzu azu bzu d ↔ (d ≠ none → FitsWithin .int vzu azu bzu)) ∧
    (PreservesValue sancusGetDrzd vzd azd bzd d ↔ (d ≠ none → FitsWithin .int vzd azd bzd)) ∧
    (PreservesNumber sancusGetUrlls s all bll u ↔
      (u ≠ none → NumberFitsWithin .unsignedInt s all bll)) ∧
    (PreservesNumber sancusGetDrls s al bl d ↔ (d ≠ none → NumberFitsWithin .int s al bl)) ∧
    (PreservesNumber sancusGetDrlls s all bll d ↔ (d ≠ none → NumberFitsWithin .int s all bll)) :=
  ⟨preserves_iff_fits, preserves_iff_fits, preserves_iff_fits, preserves_iff_fits,
    preserves_iff_fits, preserves_iff_fits, preserves_iff_fits,
    getGeleStrto_preserves_iff_fits rfl fun _ h => h.mono (by decide) (by decide),
    getGeleStrto_preserves_iff_fits rfl fun _ h => h.mono (by decide) (by decide),
    getGeleStrto_preserves_iff_fits rfl fun _ h => h.mono (by decide) (by decide)⟩

/-- -1 is within -5 and 5, and stored as the largest `unsigned`. -/
theorem get_within_wraps :
    ¬ PreservesValue sancusGetUrll (IntType.longLong.conv (-1)) (IntType.longLong.conv (-5))
      (IntType.longLong.conv 5) (some (IntType.unsignedInt.conv 0)) := by
  intro h
  have hstored := h.stored (by decide) (IntType.unsignedInt.conv (-1)) (by decide)
  exact absurd hstored.1 (by decide)

end Sancus.Types
