import Tlsf.Proofs.FreshPool

/-!
Pools from a configuration. A configuration is fitted to the buffer first, and only a region that
fits is constructed. The two stages check the same bounds in different words; together they accept
the regions that a direct construction accepts, and make the same pool.
-/

namespace Tlsf

open Dimensions Buffer

namespace Config

variable {c : Config} {n : Nat} {e : ConfigError}

def span (c : Config) (n : Nat) : Nat :=
  (c.regionSize.map UInt64.toNat).getD (n - c.regionStart.toNat)

structure Fits (c : Config) (n : Nat) : Prop where
  asked : c.regionSize ≠ some 0
  start : c.regionStart.toNat ≤ n
  stop : c.regionStart.toNat + c.span n ≤ n

/-- Why a configuration does not fit a buffer of `n` bytes, in the order of the checks. -/
inductive Misfit (c : Config) (n : Nat) : ConfigError → Prop
  | empty (asked : c.regionSize = some 0) : Misfit c n .emptyRegion
  | wrapping (size : UInt64) (asked : c.regionSize = some size) (positive : size ≠ 0)
      (wraps : UInt64.size ≤ c.regionStart.toNat + size.toNat) :
      Misfit c n (.regionOverflow c.regionStart.toNat size.toNat)
  | beyond (valid : c.validate = .ok ()) (far : n < c.regionStart.toNat) :
      Misfit c n (.startBeyond c.regionStart.toNat n)
  | exceeding (valid : c.validate = .ok ()) (start : c.regionStart.toNat ≤ n)
      (excess : n < c.regionStart.toNat + c.span n) :
      Misfit c n (.regionExceeds c.regionStart.toNat (c.regionStart.toNat + c.span n) n)

theorem span_none (whole : c.regionSize = none) : c.span n = n - c.regionStart.toNat := by
  rw [span, whole]
  rfl

theorem span_some {size : UInt64} (asked : c.regionSize = some size) : c.span n = size.toNat := by
  rw [span, asked]
  rfl

theorem validate_ends (c : Config) (n : Nat) :
    (∃ e, c.validate = .error e ∧ c.Misfit n e) ∨
      c.validate = .ok () ∧ c.regionSize ≠ some 0 ∧
        ∀ size ∈ c.regionSize, c.regionStart.toNat + size.toNat < UInt64.size := by
  unfold validate
  cases asked : c.regionSize with
  | none => exact .inr ⟨rfl, by simp, by simp⟩
  | some size =>
    by_cases zero : size = 0
    · exact .inl ⟨_, if_pos zero, .empty (asked.trans (congrArg some zero))⟩
    · by_cases fits : c.regionStart.toNat + size.toNat < UInt64.size
      · exact .inr
          ⟨by simp only [if_neg zero, if_pos fits], by simpa using zero, by simpa using fits⟩
      · exact .inl ⟨_, by simp only [if_neg zero, if_neg fits],
          .wrapping size asked zero (Nat.le_of_not_lt fits)⟩

theorem resolve_eq_span (c : Config) (n : Nat) :
    c.resolve n = c.validate >>= fun _ =>
      if n < c.regionStart.toNat then .error (.startBeyond c.regionStart.toNat n)
      else if n < c.regionStart.toNat + c.span n then
        .error (.regionExceeds c.regionStart.toNat (c.regionStart.toNat + c.span n) n)
      else .ok (c.regionStart.toNat, c.span n) := by
  obtain ⟨start, size, track, stomp⟩ := c
  cases size <;> rfl

theorem resolve_ends (c : Config) (n : Nat) :
    (∃ e, c.resolve n = .error e ∧ c.Misfit n e) ∨
      c.resolve n = .ok (c.regionStart.toNat, c.span n) ∧ c.Fits n := by
  rcases validate_ends c n with ⟨e, invalid, misfit⟩ | ⟨valid, asked, -⟩
  · exact .inl ⟨e, by rw [resolve_eq_span, invalid]; rfl, misfit⟩
  · rw [resolve_eq_span, valid]
    by_cases far : n < c.regionStart.toNat
    · exact .inl ⟨_, if_pos far, .beyond valid far⟩
    · rw [if_neg far]
      have start := Nat.le_of_not_lt far
      by_cases excess : n < c.regionStart.toNat + c.span n
      · exact .inl ⟨_, if_pos excess, .exceeding valid start excess⟩
      · exact .inr ⟨if_neg excess, asked, start, Nat.le_of_not_lt excess⟩

theorem sum_fits (fits : n < UInt64.size) (valid : c.validate = .ok ())
    (start : c.regionStart.toNat ≤ n) :
    c.regionStart.toNat + c.span n < UInt64.size := by
  rcases validate_ends c n with ⟨e, invalid, -⟩ | ⟨-, -, sums⟩
  · rw [valid] at invalid
    cases invalid
  · cases asked : c.regionSize with
    | none =>
      rw [span_none asked]
      omega
    | some size =>
      rw [span_some asked]
      exact sums size asked

theorem Misfit.outOfBounds {b : Buffer} (misfit : c.Misfit b.size e) :
    c.regionSize = some 0 ∨ OutOfBounds b c.regionStart.toNat (c.span b.size) := by
  unfold OutOfBounds
  cases misfit with
  | empty asked => exact .inl asked
  | wrapping size asked positive wraps =>
    rw [span_some asked]
    exact .inr (.inr (.inl wraps))
  | beyond valid far => exact .inr (.inl far)
  | exceeding valid start excess => exact .inr (.inr (.inr excess))

theorem Fits.not_outOfBounds {b : Buffer} (fits : c.Fits b.size) (words : b.size < UInt64.size) :
    ¬ OutOfBounds b c.regionStart.toNat (c.span b.size) := by
  have start := fits.start
  have stop := fits.stop
  unfold OutOfBounds
  omega

end Config

theorem Checked.map_bind {α β γ : Type} (g : β → γ) (x : Checked α) (f : α → Checked β) :
    (x >>= f).map g = x >>= fun a => (f a).map g := by
  cases x <;> rfl

namespace Pool

theorem create_registry (b : Buffer) (start : Nat) (size : Option Nat)
    (registry : Option Registry) :
    create b start size registry =
      (create b start size none).map (Except.map fun p => { p with registry := registry }) := by
  let store (found : Except Error Pool) := found.map fun p => { p with registry := registry }
  have stored (found : Except Error Pool) :
      (pure found : Checked _).map store = pure (store found) := rfl
  change _ = Except.map store _
  simp only [create, apply_ite (Except.map store), Checked.map_bind, stored]
  rfl

theorem create_decides (b : Buffer) (small : b.size < 2 ^ 31) (start : Nat) (size : Option Nat)
    (registry : Option Registry) :
    let length := size.getD (b.size - start)
    (∃ p, create b start size registry = .ok (.ok p) ∧ ¬ OutOfBounds b start length ∧ 0 < length) ∨
      (create b start size registry = .ok (.error
          (.regionOutOfBounds start (min (start + length) (UInt64.size - 1)) b.size)) ∧
        OutOfBounds b start length) ∨
      (create b start size registry = .ok (.error (.regionTooSmall length (padding start + 32))) ∧
        ¬ OutOfBounds b start length) := by
  have limit : UInt32.size = 4294967296 := rfl
  have words : UInt64.size = 18446744073709551616 := rfl
  intro length
  rcases create_ends b start size registry with ⟨e, run, refused⟩ | ⟨big, -⟩ |
    ⟨a, l, lists, run, rfl, stable, first, last, inside, low, touched⟩
  · cases refused with
    | outside out => exact .inr (.inl ⟨run, out⟩)
    | narrow within tight => exact .inr (.inr ⟨run, within⟩)
    | far within excess =>
      unfold OutOfBounds at within
      omega
    | large within excess =>
      unfold OutOfBounds at within
      simp only [payloadLimit] at excess
      omega
  · omega
  · have kept := touched.size
    simp only [Layout.ofRegion] at first last inside low
    refine .inl ⟨_, run, ?_, ?_⟩
    · unfold OutOfBounds
      omega
    · change 0 < size.getD (b.size - start)
      omega

def configured (p : Pool) (c : Config) : Pool :=
  { p with
    registry := if c.trackOwnership then some Registry.empty else none
    stompFreed := c.stompFreed }

theorem ofConfig_fits {b : Buffer} {c : Config}
    (resolved : c.resolve b.size = .ok (c.regionStart.toNat, c.span b.size))
    (registry : Option Registry) :
    ofConfig b c =
      (create b c.regionStart.toNat (c.regionSize.map UInt64.toNat) registry).map
        (Except.map fun p => p.configured c) := by
  have asked : create b c.regionStart.toNat (some (c.span b.size)) none =
      create b c.regionStart.toNat (c.regionSize.map UInt64.toNat) none := rfl
  simp only [ofConfig, resolved]
  rw [create_registry _ _ _ registry, create_registry, asked]
  cases create b c.regionStart.toNat (c.regionSize.map UInt64.toNat) none with
  | error f => rfl
  | ok found => cases found <;> rfl

/-- What the construction from a configuration answers beside the construction over the region that
the configuration asks for. -/
structure Agrees (b : Buffer) (c : Config) (found direct : Except Error Pool) : Prop where
  /-- The end of the region is formed without a check of its own, after these two. -/
  sum : c.validate = .ok () → c.regionStart.toNat ≤ b.size →
    c.regionStart.toNat + c.span b.size < UInt64.size
  made : (∃ p, found = .ok p) ↔ ∃ p, direct = .ok p
  same : ∀ p, direct = .ok p → found = .ok (p.configured c)
  unfit : (∃ e, found = .error (.config e)) ↔
    (∃ start stop length, direct = .error (.regionOutOfBounds start stop length)) ∨
      c.regionSize = some 0
  reason : ∀ e, found = .error (.config e) → c.Misfit b.size e
  narrow : ∀ e, direct = .error e → (¬ ∃ r, found = .error (.config r)) →
    found = .error e ∧ ∃ size required, e = .regionTooSmall size required
  inside : ∀ start stop length, found ≠ .error (.regionOutOfBounds start stop length)

section Agreement

variable {b : Buffer} {c : Config} {e : ConfigError} {direct : Except Error Pool}

theorem agrees_of_misfit (words : b.size < UInt64.size) (misfit : c.Misfit b.size e)
    (refused : (∃ start stop length, direct = .error (.regionOutOfBounds start stop length)) ∨
      c.regionSize = some 0 ∧ ∃ size required, direct = .error (.regionTooSmall size required)) :
    Agrees b c (.error (.config e)) direct where
  sum := Config.sum_fits words
  made := by
    rcases refused with ⟨start, stop, length, rfl⟩ | ⟨-, size, required, rfl⟩ <;> simp
  same p made := by
    rcases refused with ⟨start, stop, length, rfl⟩ | ⟨-, size, required, rfl⟩ <;> cases made
  unfit := iff_of_true ⟨e, rfl⟩ (refused.imp_right And.left)
  reason r same := by
    cases same
    exact misfit
  narrow _ _ other := absurd ⟨e, rfl⟩ other
  inside _ _ _ same := nomatch same

theorem agrees_of_fits (words : b.size < UInt64.size) (fits : c.Fits b.size)
    (narrow : ∀ e, direct = .error e → ∃ size required, e = .regionTooSmall size required) :
    Agrees b c (direct.map fun p => p.configured c) direct := by
  have sum := Config.sum_fits (c := c) words
  have asked := fits.asked
  cases direct with
  | ok p =>
    exact {
      sum
      made := by simp [Except.map]
      same := by simp [Except.map]
      unfit := by simp [Except.map, asked]
      reason := by simp [Except.map]
      narrow := by simp
      inside := by simp [Except.map] }
  | error e =>
    -- the refusal passes through unchanged, and it is no refusal of the bounds
    obtain ⟨size, required, rfl⟩ := narrow e rfl
    exact {
      sum
      made := by simp [Except.map]
      same := by simp
      unfit := by simp [Except.map, asked]
      reason := by simp [Except.map]
      narrow := by simp [Except.map]
      inside := by simp [Except.map] }

end Agreement

/-- Over less than 2 GiB, a construction from a configuration answers as the direct construction
does, whatever registry that one is handed: with the same pool but for the registry and the
treatment of released payloads, or with an error of its own where the bounds are wrong. -/
theorem ofConfig_agrees (b : Buffer) (small : b.size < 2 ^ 31) (c : Config)
    (registry : Option Registry) :
    ∃ found direct, ofConfig b c = .ok found ∧
      create b c.regionStart.toNat (c.regionSize.map UInt64.toNat) registry = .ok direct ∧
      Agrees b c found direct := by
  have words : b.size < UInt64.size := Nat.lt_trans small (by decide)
  have decided :=
    create_decides b small c.regionStart.toNat (c.regionSize.map UInt64.toNat) registry
  rcases c.resolve_ends b.size with ⟨e, resolved, misfit⟩ | ⟨resolved, fits⟩
  · have refused : ofConfig b c = .ok (.error (.config e)) := by
      rw [ofConfig, resolved]
      rfl
    rcases decided with ⟨p, -, within, positive⟩ | ⟨run, -⟩ | ⟨run, within⟩
    · -- a region of some bytes within the bounds fits
      have positive : 0 < c.span b.size := positive
      have empty := Config.span_some (n := b.size) (misfit.outOfBounds.resolve_right within)
      rw [empty] at positive
      exact absurd positive (Nat.lt_irrefl 0)
    · exact ⟨_, _, refused, run, agrees_of_misfit words misfit (.inl ⟨_, _, _, rfl⟩)⟩
    · have asked := misfit.outOfBounds.resolve_right within
      exact ⟨_, _, refused, run, agrees_of_misfit words misfit (.inr ⟨asked, _, _, rfl⟩)⟩
  · have granted := ofConfig_fits resolved registry
    rcases decided with ⟨p, run, -⟩ | ⟨-, out⟩ | ⟨run, -⟩
    · rw [run] at granted
      refine ⟨_, _, granted, run, agrees_of_fits words fits fun e refused => ?_⟩
      cases refused
    · exact absurd out (fits.not_outOfBounds words)
    · rw [run] at granted
      refine ⟨_, _, granted, run, agrees_of_fits words fits fun e same => ?_⟩
      cases same
      exact ⟨_, _, rfl⟩

theorem ofConfig_agrees_sample :
    (Buffer.filled 256 0).size < 2 ^ 31 ∧ ∃ p e,
      create (.filled 256 0) 5 (some 250) none = .ok (.ok p) ∧
      ofConfig (.filled 256 0)
          { regionStart := 5, regionSize := some 250,
            trackOwnership := true, stompFreed := false } =
        .ok (.ok { p with registry := some .empty, stompFreed := false }) ∧
      ofConfig (.filled 256 0) { regionStart := 5, regionSize := some 34 } =
        .ok (.error (.regionTooSmall 34 35)) ∧
      ofConfig (.filled 256 0) { regionStart := 5, regionSize := some 252 } =
        .ok (.error (.config e)) := by
  have size : (Buffer.filled 256 0).size = 256 := by decide +kernel
  have small : (Buffer.filled 256 0).size < 2 ^ 31 := by omega
  have makes :
      ((create (.filled 256 0) 5 (some 250) none).toOption.bind Except.toOption).isSome := by
    decide +kernel
  have tight : create (.filled 256 0) 5 (some 34) none = .ok (.error (.regionTooSmall 34 35)) := by
    simp only [create, size]
    rfl
  have out : create (.filled 256 0) 5 (some 252) none =
      .ok (.error (.regionOutOfBounds 5 257 256)) := by
    simp only [create, size]
    rfl
  obtain ⟨found, direct, run, made, agrees⟩ := ofConfig_agrees (.filled 256 0) small
    { regionStart := 5, regionSize := some 250, trackOwnership := true, stompFreed := false } none
  obtain ⟨narrow, direct', run', made', agrees'⟩ := ofConfig_agrees (.filled 256 0) small
    { regionStart := 5, regionSize := some 34 } none
  obtain ⟨beyond, direct'', run'', made'', agrees''⟩ := ofConfig_agrees (.filled 256 0) small
    { regionStart := 5, regionSize := some 252 } none
  have made : create (.filled 256 0) 5 (some 250) none = .ok direct := made
  obtain rfl : direct' = _ := Except.ok.inj (made'.symm.trans tight)
  obtain rfl : direct'' = _ := Except.ok.inj (made''.symm.trans out)
  cases direct with
  | error e =>
    rw [made] at makes
    cases makes
  | ok p =>
    obtain rfl := agrees.same p rfl
    obtain ⟨e, rfl⟩ := agrees''.unfit.mpr (.inl ⟨_, _, _, rfl⟩)
    have fits : ¬ ∃ r, narrow = .error (.config r) := by
      rw [agrees'.unfit]
      simp
    obtain ⟨rfl, -⟩ := agrees'.narrow _ rfl fits
    exact ⟨small, p, e, made, run, run', run''⟩

end Pool

end Tlsf
