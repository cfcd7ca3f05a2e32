import Tlsf.Proofs.PoolCalls

/-!
New pools. Whatever the buffer held before, laying out a pool makes one free
block and the sentinel, inside the region and nowhere else.
-/

namespace Tlsf

open Dimensions Buffer

def Layout.ofRegion (start length : Nat) : Layout :=
  let first := (start + 7) / alignment * alignment
  let payload := (start + length - first - poolOverhead) / alignment * alignment
  ⟨start, start + length, first, first + 8 + payload⟩

def Layout.block (l : Layout) : Cell := ⟨l.firstBlock, l.sentinel - (l.firstBlock + 8), .filed⟩

def padding (start : Nat) : Nat := (start + 7) / alignment * alignment - start

theorem start_add_padding (start : Nat) :
    start + padding start = (start + 7) / alignment * alignment := by
  simp only [padding, alignment]
  omega

/-- A region that does not lie in the buffer, or whose end is no 64-bit offset. -/
def OutOfBounds (b : Buffer) (start length : Nat) : Prop :=
  b.size < start ∨ UInt64.size ≤ start + length ∨ b.size < start + length

instance (b : Buffer) (start length : Nat) : Decidable (OutOfBounds b start length) :=
  inferInstanceAs (Decidable (_ ∨ _))

inductive RegionRefused (b : Buffer) (start length : Nat) : Error → Prop
  | outside (out : OutOfBounds b start length) : RegionRefused b start length
      (.regionOutOfBounds start (min (start + length) (UInt64.size - 1)) b.size)
  | far (within : ¬ OutOfBounds b start length) (excess : UInt32.size ≤ start + length) :
      RegionRefused b start length (.regionTooLarge length (UInt32.size - 1 - start))
  | narrow (within : ¬ OutOfBounds b start length) (tight : length < padding start + 32) :
      RegionRefused b start length (.regionTooSmall length (padding start + 32))
  | large (within : ¬ OutOfBounds b start length) (excess : payloadLimit ≤ length) :
      RegionRefused b start length (.regionTooLarge length (payloadLimit - alignment + poolOverhead))

theorem Config.resolve_eq {c : Config} {n start size : Nat} (resolved : c.resolve n = .ok (start, size)) :
    start = c.regionStart.toNat ∧ size = (c.regionSize.map UInt64.toNat).getD (n - start) := by
  cases valid : c.validate with
  | error e =>
    simp only [Config.resolve, valid] at resolved
    cases resolved
  | ok _ =>
    cases sized : c.regionSize <;>
      simp only [Config.resolve, valid, sized, bind, Except.bind, throw, throwThe,
        MonadExceptOf.throw] at resolved
    all_goals
      split at resolved
      · cases resolved
      · split at resolved
        · cases resolved
        · cases resolved
          exact ⟨rfl, rfl⟩

namespace Pool

theorem usedWord_eq {x : Cell} (used : x.status = .used) (fits : x.size < UInt32.size)
    (granular : x.size % 4 = 0) :
    SizeWord.ofSize x.size = .ok (SizeWord.ofParts x.size x.isFree false) := by
  rw [Cell.isFree_of_used used]
  exact SizeWord.ofSize_eq fits granular

theorem layTags_spec {b : Buffer} {x y : Cell} (usedx : x.status = .used) (regular : x.Regular)
    (usedy : y.status = .used) (next : y.header = x.stop) (empty : y.size = 0)
    (room : x.stop + 8 ≤ b.size) (low : x.stop + 8 < UInt32.size) :
    ∃ b₁ b₂ b₃ w₁ w₂, SizeWord.ofSize x.size = .ok w₁ ∧ Block.setWord b x.header w₁ = .ok b₁ ∧
      Block.nextPhysical b₁ x.header = .ok y.header ∧ SizeWord.ofSize y.size = .ok w₂ ∧
      Block.setWord b₁ y.header w₂ = .ok b₂ ∧ Block.markFree b₂ x.header = .ok b₃ ∧
      Tagged b₃ (x.turn .loose) none ∧ Tagged b₃ y (some x.header) ∧
      OnlyTouches b b₃ (Set.Ico x.header (x.stop + 8)) := by
  have stopx := x.stop_eq
  have least := regular.minimum
  have granular := regular.granular
  let b₁ := b.setWord (x.header + 4) (SizeWord.ofParts x.size x.isFree false).raw
  let b₂ := b₁.setWord (y.header + 4) (SizeWord.ofParts y.size y.isFree false).raw
  have size₁ : b₁.size = b.size := size_setWord ..
  have sx₁ : Sized b₁ x false := Sized.of_setWord (by omega) (by omega) (by omega)
  have sx₂ : Sized b₂ x false := sx₁.setWord_ne _ (by omega)
  have sy₂ : Sized b₂ y false := Sized.of_setWord (by omega) (by omega) (by omega)
  obtain ⟨b₃, marked, tagx, tagy, touched⟩ :=
    markFree_spec sx₂.tagged sy₂.tagged next (by omega)
  refine ⟨b₁, b₂, b₃, _, _, usedWord_eq usedx (by omega) (by omega), writeWord_eq _ (by omega),
    next ▸ sx₁.nextPhysical_eq (by omega), usedWord_eq usedy (by omega) (by omega),
    writeWord_eq _ (by omega), marked, tagx, tagy, ?_⟩
  refine (((OnlyTouches.setWord b _ _).trans (.setWord b₁ _ _)).trans touched).mono fun i mem => ?_
  simp only [Set.mem_union, Set.mem_Ico] at mem ⊢
  omega

theorem layOut_spec (b : Buffer) (first payload : Nat) (aligned : first % 8 = 0)
    (least : 16 ≤ payload) (granular : payload % 8 = 0)
    (room : first + 8 + payload + 8 ≤ b.size) (low : first + 8 + payload + 8 < UInt32.size)
    (bound : payload < payloadLimit) :
    ∃ a lists, layOut b first payload = .ok (first + 8 + payload, a) ∧
      a.Stable first (first + 8 + payload) [⟨first, payload, .filed⟩] lists ∧
      OnlyTouches b a.buffer (Set.Ico first (first + 8 + payload + 8)) := by
  let x : Cell := ⟨first, payload, .used⟩
  have regular : x.Regular := ⟨least, granular⟩
  obtain ⟨b₁, b₂, b₃, w₁, w₂, word₁, set₁, next, word₂, set₂, marked, tagx, tagy, touched⟩ :=
    layTags_spec (x := x) (y := .sentinel x.stop) rfl regular rfl rfl rfl room low
  have holds : Arena.Holds ⟨b₃, .empty, ∅⟩ first x.stop ([] ++ x.turn .loose :: [])
      fun _ => [] := by
    refine ⟨aligned, low, Nat.add_lt_add_left bound (first + 8), ⟨rfl, Cell.turn_regular.mpr regular, rfl⟩,
      ⟨tagx, tagy, trivial⟩, fun _ => trivial, FreeIndex.mirrors_empty, fun c h => ?_,
      fun _ => List.nodup_nil, fun h => ?_⟩
    · simp [FiledAt]
    · simp
  obtain ⟨a, filed, after, touched'⟩ := Arena.insertFree_spec holds rfl
  refine ⟨a, _, ?_, ⟨after, by simp, .singleton _⟩, (touched.trans touched').mono ?_⟩
  · have word₁ : SizeWord.ofSize payload = .ok w₁ := word₁
    have word₂ : SizeWord.ofSize 0 = .ok w₂ := word₂
    have set₁ : Block.setWord b first w₁ = .ok b₁ := set₁
    have next : Block.nextPhysical b₁ first = .ok (first + 8 + payload) := next
    have set₂ : Block.setWord b₁ (first + 8 + payload) w₂ = .ok b₂ := set₂
    have marked : Block.markFree b₂ first = .ok b₃ := marked
    have filed : Arena.insertFree ⟨b₃, .empty, ∅⟩ first = .ok a := filed
    simp only [layOut, word₁, set₁, next, word₂, set₂, marked, filed, Checked.ok_bind,
      Checked.pure_eq]
  · rintro i (old | links | own)
    · exact old
    · obtain ⟨c, h, mem, -⟩ := links
      cases mem
    · simp only [Cell.turn_header, x, Set.mem_Ico] at own ⊢
      omega

/-- How a construction ends: refused for a reason, or with one free block that fills the layout.
Only a region that starts past every 32-bit offset cannot even be refused. -/
theorem create_ends (b : Buffer) (start : Nat) (size : Option Nat) (registry : Option Registry) :
    (∃ e, create b start size registry = .ok (.error e) ∧
        RegionRefused b start (size.getD (b.size - start)) e) ∨
      (UInt32.size ≤ b.size ∧ create b start size registry = .error .overflow) ∨
      ∃ a l lists, create b start size registry = .ok (.ok ⟨a, l, registry, true, {}⟩) ∧
        l = .ofRegion start (size.getD (b.size - start)) ∧
        a.Stable l.firstBlock l.sentinel [l.block] lists ∧ l.regionStart ≤ l.firstBlock ∧
        l.sentinel + 8 ≤ l.regionEnd ∧ l.regionEnd ≤ a.buffer.size ∧ l.regionEnd < UInt32.size ∧
        OnlyTouches b a.buffer (Set.Ico l.firstBlock (l.sentinel + 8)) := by
  have limit : UInt64.size = 18446744073709551616 := rfl
  have limit' : UInt32.size = 4294967296 := rfl
  simp only [create]
  generalize size.getD (b.size - start) = length
  by_cases bounds : ¬ (start + length < UInt64.size ∧ start ≤ b.size ∧ start + length ≤ b.size)
  · exact .inl ⟨_, if_pos bounds, .outside (by unfold OutOfBounds; omega)⟩
  · rw [if_neg bounds]
    have within : ¬ OutOfBounds b start length := by
      unfold OutOfBounds
      omega
    by_cases far : UInt32.size ≤ start + length
    · rw [if_pos far]
      -- what a 32-bit region could have holds no negative number: past it even the refusal faults
      by_cases reach : start ≤ UInt32.size - 1
      · exact .inl ⟨_, by rw [Checked.sub_eq_ok reach]; rfl, .far within far⟩
      · refine .inr (.inl ⟨by omega, ?_⟩)
        rw [Checked.sub, if_neg reach]
        rfl
    · rw [if_neg far]
      have up : alignUp start alignment = .ok ((start + 7) / alignment * alignment) :=
        alignUp_alignment (by omega)
      have down : alignDown (start + length - (start + 7) / alignment * alignment - poolOverhead)
          alignment = .ok ((start + length - (start + 7) / alignment * alignment - poolOverhead) /
            alignment * alignment) := alignDown_alignment (by omega)
      have pad : padding start = (start + 7) / alignment * alignment - start := rfl
      simp only [up, down, Checked.ok_bind, Layout.ofRegion, Layout.block]
      generalize firstEq : (start + 7) / alignment * alignment = first at pad ⊢
      generalize payloadEq : (start + length - first - poolOverhead) / alignment * alignment = payload
      simp only [alignment, poolOverhead] at firstEq payloadEq
      -- both checks come down to the padding, the two headers and one least payload
      by_cases narrow : start + length - first < poolOverhead + minPayload ∨ payload < minPayload
      · have tight : length < padding start + 32 := by
          simp only [poolOverhead, minPayload] at narrow
          omega
        refine .inl ⟨.regionTooSmall length (padding start + 32), ?_, .narrow within tight⟩
        rw [if_pos narrow, pad]
        rfl
      · rw [if_neg narrow]
        simp only [poolOverhead, minPayload] at narrow
        by_cases large : payloadLimit ≤ payload
        · exact .inl ⟨_, if_pos large, .large within (by omega)⟩
        · rw [if_neg large]
          obtain ⟨a, lists, run, stable, touched⟩ := layOut_spec b first payload
            (by omega) (by omega) (by omega) (by omega) (by omega) (Nat.not_le.mp large)
          refine .inr (.inr ⟨a, ⟨start, start + length, first, first + 8 + payload⟩, lists, ?_, rfl, ?_,
            ?_, ?_, ?_, Nat.not_le.mp far, touched⟩)
          · simp only [run, Checked.ok_bind, Checked.pure_eq]
          · simpa only [Nat.add_sub_cancel_left] using stable
          · show start ≤ first
            omega
          · show first + 8 + payload + 8 ≤ start + length
            omega
          · have size := touched.size
            show start + length ≤ a.buffer.size
            omega

theorem create_laid (b : Buffer) (start : Nat) (size : Option Nat) (registry : Option Registry) :
    (∃ e, create b start size registry = .ok (.error e)) ∨
      (UInt32.size ≤ b.size ∧ create b start size registry = .error .overflow) ∨
      ∃ a l lists, create b start size registry = .ok (.ok ⟨a, l, registry, true, {}⟩) ∧
        l = .ofRegion start (size.getD (b.size - start)) ∧
        a.Stable l.firstBlock l.sentinel [l.block] lists ∧ l.regionStart ≤ l.firstBlock ∧
        l.sentinel + 8 ≤ l.regionEnd ∧ l.regionEnd ≤ a.buffer.size ∧ l.regionEnd < UInt32.size ∧
        OnlyTouches b a.buffer (Set.Ico l.firstBlock (l.sentinel + 8)) := by
  refine (create_ends b start size registry).imp_left ?_
  rintro ⟨e, run, -⟩
  exact ⟨e, run⟩

theorem create_spec (b : Buffer) (start : Nat) (size : Option Nat) (registry : Option Registry)
    (forest : ∀ r ∈ registry, r.Forest) :
    (∃ e, create b start size registry = .ok (.error e)) ∨
      (UInt32.size ≤ b.size ∧ create b start size registry = .error .overflow) ∨
      ∃ p x lists, create b start size registry = .ok (.ok p) ∧ x.status = .filed ∧
        p.tally = {} ∧ p.Sound 0 [x] lists ∧
        OnlyTouches b p.buffer (Set.Ico p.layout.firstBlock (p.layout.sentinel + 8)) := by
  refine (create_laid b start size registry).imp_right (Or.imp_right ?_)
  rintro ⟨a, l, lists, run, -, stable, first, last, region, low, touched⟩
  exact ⟨_, l.block, lists, run, rfl, rfl, ⟨stable, first, last, region, low, .initial, forest⟩, touched⟩

theorem ofConfig_spec (b : Buffer) (c : Config) :
    (∃ e, ofConfig b c = .ok (.error e)) ∨
      (UInt32.size ≤ b.size ∧ ofConfig b c = .error .overflow) ∨
      ∃ p x lists, ofConfig b c = .ok (.ok p) ∧ x.status = .filed ∧ p.tally = {} ∧
        p.Sound 0 [x] lists ∧
        OnlyTouches b p.buffer (Set.Ico p.layout.firstBlock (p.layout.sentinel + 8)) := by
  cases resolved : c.resolve b.size with
  | error e => exact .inl ⟨_, by simp only [ofConfig, resolved, Checked.pure_eq]; rfl⟩
  | ok region =>
    obtain ⟨start, size⟩ := region
    have forest : ∀ r ∈ (if c.trackOwnership then some Registry.empty else none), r.Forest := by
      intro r mem
      by_cases track : c.trackOwnership = true
      · rw [if_pos track] at mem
        exact Option.some.inj mem ▸ Registry.forest_empty
      · rw [if_neg track] at mem
        cases mem
    rcases create_spec b start (some size) _ forest with ⟨e, refused⟩ | ⟨far, wrapped⟩ | made
    · refine .inl ⟨e, ?_⟩
      simp only [ofConfig, resolved, refused, Checked.ok_bind, Checked.pure_eq]
      rfl
    · refine .inr (.inl ⟨far, ?_⟩)
      simp only [ofConfig, resolved, wrapped, Checked.error_bind]
    · obtain ⟨p, x, lists, run, filed, fresh, sound, touched⟩ := made
      refine .inr (.inr ⟨{ p with stompFreed := c.stompFreed }, x, lists, ?_, filed, fresh,
        { sound with }, touched⟩)
      simp only [ofConfig, resolved, run, Checked.ok_bind, Checked.pure_eq]
      rfl

end Pool

end Tlsf
