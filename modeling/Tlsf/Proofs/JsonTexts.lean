import Mathlib.Data.List.Nodup
import Tlsf.Json.Serializer

/-!
The library for JSON texts keeps what is documented of such a library. What it writes it reads back
as the same document; the names in a record tell the members apart.
-/

namespace Tlsf.Json

variable {α ι ρ : Type}

/-! Reading records -/

theorem unescape?_plain {cs : List Char} (plain : ∀ c ∈ cs, Plain c) : unescape? cs = some cs := by
  induction cs with
  | nil => rfl
  | cons c cs ih =>
    obtain ⟨⟨-, escape, -⟩, rest⟩ := List.forall_mem_cons.mp plain
    simp [unescape?, escape, ih rest]

theorem unescape?_names {members : List (String × Json)}
    (plain : ∀ m ∈ members, ∀ c ∈ m.1.toList, Plain c) :
    (members.map fun (name, value) => (name.toList, value)).mapM
      (fun (name, value) => do pure (String.ofList (← unescape? name), value)) = some members := by
  induction members with
  | nil => rfl
  | cons member rest ih =>
    obtain ⟨first, later⟩ := List.forall_mem_cons.mp plain
    rw [List.map_cons, List.mapM_cons, ih later]
    simp [unescape?_plain first]

theorem members?_record {names : List String} {members : List (String × Json)}
    (plain : ∀ m ∈ members, ∀ c ∈ m.1.toList, Plain c) (known : ∀ m ∈ members, m.1 ∈ names)
    (once : (members.map Prod.fst).Nodup) : (record members).members? names = some members := by
  have all : members.filter (fun (name, _) => name ∈ names) = members :=
    List.filter_eq_self.mpr fun m mem => decide_eq_true (known m mem)
  rw [record, members?, unescape?_names plain]
  simp only [Option.bind_eq_bind, Option.bind_some, all, if_pos once]

/-! Scalars -/

theorem toString_word (n : UInt64) : toString n = String.ofList (Text.numeral n.toNat) := by
  change toString n.toNat = _
  simp [Text.numeral, Nat.repr_eq_ofList_toDigits]

theorem render_word (n : UInt64) : (Codec.word.toJson n).render = toString n := by
  rw [toString_word]
  simp [Codec.word, ofNat, render, tokens, Token.text]

theorem render_flag (value : Bool) : (Codec.flag.toJson value).render = toString value := by
  cases value <;> rfl

theorem word_toJson (n : UInt64) : Codec.word.ofJson? (Codec.word.toJson n) = some n := by
  have small : n.toNat < UInt64.size := n.toNat_lt
  simp [Codec.word, ofNat, natural?, Text.natural?_numeral, small]

theorem option_toJson {c : Codec α} {a : α} (nonnull : (c.toJson a).render ≠ "null")
    (read : c.ofJson? (c.toJson a) = some a) :
    c.option.ofJson? (c.option.toJson (some a)) = some (some a) := by
  change option? c.ofJson? (c.toJson a) = some (some a)
  have some_ : option? c.ofJson? (c.toJson a) = (c.ofJson? (c.toJson a)).map some := by
    generalize c.toJson a = j at nonnull
    cases j with
    | null => exact absurd rfl nonnull
    | _ => rfl
  rw [some_, read, Option.map_some]

theorem read_write (c : Codec α) (a : α) :
    serializer.read c (serializer.write c a) = c.ofJson? (c.toJson a) := by
  change parse? (c.toJson a).render >>= c.ofJson? = _
  rw [parse?_render _ (c.spelled a)]
  rfl

/-! Declared records -/

section Records

variable {d : Declaration Codec ι ρ} {r r' : ρ} {given : List ι} {members : List (String × Json)} {f : ι}

theorem listing_eq (d : Declaration Codec ι ρ) (r : ρ) (given : List ι) :
    serializer.listing d r given = (record (given.map (Codec.member d r))).render := by
  change objectText (given.map fun f => (d.name f, (Codec.member d r f).2.render)) = _
  rw [render_record, objectText, List.map_map, List.map_map]
  rfl

theorem read_listing (r : ρ) (once : given.Nodup) :
    serializer.read (serializer.record d) (serializer.listing d r given) =
      Codec.fromMembers? d (given.map (Codec.member d r)) := by
  have spelled := record_spelled (List.forall_mem_map.mpr fun f (_ : f ∈ given) =>
    Codec.member_spelled d r f)
  have named : (record (given.map (Codec.member d r))).members? (d.fields.map d.name) =
      some (given.map (Codec.member d r)) := by
    apply members?_record
    · exact List.forall_mem_map.mpr fun f _ => (Codec.member_spelled d r f).1
    · exact List.forall_mem_map.mpr fun f _ => List.mem_map_of_mem (d.complete f)
    · rw [List.map_map]
      exact once.map fun _ _ => d.distinct
  rw [listing_eq]
  change parse? _ >>= (fun j => j.members? (d.fields.map d.name) >>= Codec.fromMembers? d) = _
  rw [parse?_render _ spelled, Option.bind_eq_bind, Option.bind_some, named, Option.bind_eq_bind,
    Option.bind_some]

theorem lookup_listed (r : ρ) (listed : f ∈ given) :
    (given.map (Codec.member d r)).lookup (d.name f) = some ((d.codec f).toJson (d.get r f)) := by
  induction given with
  | nil => cases listed
  | cons g rest ih =>
    rw [List.map_cons, Codec.member, List.lookup_cons]
    by_cases same : f = g
    · subst same
      simp
    · have apart : d.name f ≠ d.name g := fun names => same (d.distinct names)
      rw [beq_eq_false_iff_ne.mpr apart]
      exact ih ((List.mem_cons.mp listed).resolve_left same)

theorem lookup_left (r : ρ) (left : f ∉ given) :
    (given.map (Codec.member d r)).lookup (d.name f) = none := by
  induction given with
  | nil => rfl
  | cons g rest ih =>
    obtain ⟨other, left⟩ := List.ne_and_not_mem_of_not_mem_cons left
    have apart : d.name f ≠ d.name g := fun names => other (d.distinct names)
    rw [List.map_cons, Codec.member, List.lookup_cons, beq_eq_false_iff_ne.mpr apart]
    exact ih left

theorem fieldOf?_left (r : ρ) (left : f ∉ given) :
    Codec.fieldOf? d (given.map (Codec.member d r)) f = some (d.get d.default f) := by
  rw [Codec.fieldOf?, memberD?, lookup_left r left]

theorem fieldOf?_listed (listed : f ∈ given)
    (read : (d.codec f).ofJson? ((d.codec f).toJson (d.get r f)) = some (d.get r f)) :
    Codec.fieldOf? d (given.map (Codec.member d r)) f = some (d.get r f) := by
  rw [Codec.fieldOf?, memberD?, lookup_listed r listed]
  exact read

theorem fromMembers?_isSome (found : ∀ f, ∃ value, Codec.fieldOf? d members f = some value) :
    ∃ r', Codec.fromMembers? d members = some r' := by
  have all : ∀ f ∈ d.fields, (Codec.fieldOf? d members f).isSome := fun f _ =>
    Option.isSome_iff_exists.mpr (found f)
  exact ⟨_, dif_pos all⟩

theorem fromMembers?_get (made : Codec.fromMembers? d members = some r') (f : ι) :
    Codec.fieldOf? d members f = some (d.get r' f) := by
  unfold Codec.fromMembers? at made
  split at made
  · cases made
    rw [d.get_make, Option.some_get]
  · cases made

theorem read_listed (r : ρ) (once : given.Nodup)
    (read : ∀ f ∈ given, (d.codec f).ofJson? ((d.codec f).toJson (d.get r f)) = some (d.get r f)) :
    ∃ r', serializer.read (serializer.record d) (serializer.listing d r given) = some r' ∧
      ∀ f ∈ given, d.get r' f = d.get r f := by
  have found : ∀ f, ∃ value, Codec.fieldOf? d (given.map (Codec.member d r)) f = some value := by
    intro f
    by_cases listed : f ∈ given
    · exact ⟨_, fieldOf?_listed listed (read f listed)⟩
    · exact ⟨_, fieldOf?_left r listed⟩
  obtain ⟨r', made⟩ := fromMembers?_isSome found
  refine ⟨r', (read_listing r once).trans made, fun f listed => ?_⟩
  have value := fromMembers?_get made f
  rw [fieldOf?_listed listed (read f listed)] at value
  exact (Option.some.inj value).symm

theorem read_left (once : given.Nodup)
    (read : serializer.read (serializer.record d) (serializer.listing d r given) = some r')
    (left : f ∉ given) : d.get r' f = d.get d.default f := by
  have made := (read_listing r once).symm.trans read
  have value := fromMembers?_get made f
  rw [fieldOf?_left r left] at value
  exact (Option.some.inj value).symm

end Records

theorem documented : serializer.Documented where
  word_written := render_word
  word_read n := by
    have back := (read_write .word n).trans (word_toJson n)
    exact (congrArg (serializer.read _) (render_word n)).symm.trans back
  flag_written := render_flag
  flag_read value := by
    have back : serializer.read Codec.flag (serializer.write Codec.flag value) = some value :=
      read_write .flag value
    exact (congrArg (serializer.read _) (render_flag value)).symm.trans back
  none_written _ := rfl
  none_read c := read_write (Codec.option c) none
  some_written _ _ := rfl
  some_read c a nonnull read := by
    have found := (read_write c a).symm.trans read
    exact (read_write (Codec.option c) (some a)).trans (option_toJson nonnull found)
  record_written d r := (listing_eq d r d.fields).symm
  record_listed d r _ once _ read :=
    read_listed (d := d) r once fun f listed =>
      (read_write (d.codec f) (d.get r f)).symm.trans (read f listed)
  record_left d r _ _ once read _ left := read_left (d := d) once read left

end Tlsf.Json
