import Certus.Dispatcher.SlotDiscipline

/-! # A resident entry owns its slot

An entry in the memory tier names a pointer and a size; they should be those of the slot that the
memory tier has allocated under the same key. Slots carry no generation number: a procedure that has
taken an entry away frees the slot in a later step, by key, and by then the slot may be that of a
newer entry. The invariant therefore holds along the runs in which procedures do not cross each
other on a key: a slot is freed only while no other procedure relies on it, and it is published only
while no other procedure is entitled to free it.

* **`resident_owns_slot`** — the entries own their slots along uncrossed runs. -/

namespace Certus.Dispatcher

open MemoryTier Prog List Option

/-- The entry of the key is in the memory tier. -/
def KeyView.Resident (v : KeyView) : Prop := ∃ e, v.entry = some e ∧ e.location.Resident

/-- A procedure with this stake is entitled to free the slot. -/
def Stake.mayFree : Stake → Bool
  | .reserved _ | .owes | .freed => true
  | _ => false

/-- A stake is in keeping with the view: the slot relied on is the slot of the key, and whoever may
free it does not take it from an entry. -/
structure Stake.Fits (g : Stake) (v : KeyView) : Prop where
  slot : ∀ s, g.slot? = some s → v.slot = some s
  free : g.mayFree → ¬ v.Resident

/-- The invariant of a key. -/
structure SlotInv (v : KeyView) (gs : List Holding) : Prop where
  owns : ∀ e p n o, v.entry = some e → e.location = .memoryTier p n o → v.slot = some ⟨p, n⟩
  sized : ∀ s, v.slot = some s → s.size ≠ 0
  removed : v.pin.removed → ¬ v.Resident
  fits : ∀ g ∈ gs, g.stake.Fits v

/-- What a call about the key asks of the other procedures, and of the ledger: to free the slot,
that nobody else relies on it; to publish it, that nobody else is entitled to free it, and that it
is published with its size. -/
def Exclusive (v : KeyView) (others : List Holding) : Call → Prop
  | .tier (.remove _) => ∀ g ∈ others, g.stake.slot? = none
  | .map (.createMemoryTierEntry _ _ n) =>
    (∀ g ∈ others, g.stake.mayFree = false) ∧ v.pin.removed = false ∧
      ∀ s ∈ v.slot, s.size = n
  | .map (.promoteBlockToMemoryTier _ _ _) =>
    (∀ g ∈ others, g.stake.mayFree = false) ∧ v.pin.removed = false
  | _ => True

/-! ## One call -/

theorem Stake.fits_none (v : KeyView) : Stake.none.Fits v :=
  ⟨fun _ h => (by cases h), fun h => (by cases h)⟩

variable {v : KeyView} {g : Stake} {c : Call} {i : ℕ} {k : CacheKey} {o : Oracle} {s : System}

theorem Stake.fits_owes (h : ¬ v.Resident) : Stake.owes.Fits v :=
  ⟨fun _ h => (by cases h), fun _ => h⟩

theorem Stake.fits_freed (h : ¬ v.Resident) : Stake.freed.Fits v :=
  ⟨fun _ h => (by cases h), fun _ => h⟩

theorem Stake.Fits.expire (h : g.Fits v) : g.expire.Fits v := by
  cases g
  case freed => exact Stake.fits_none v
  all_goals exact h

/-- A stake stays in keeping with a view in which the slot is the same and no entry came to be
resident. -/
theorem Stake.Fits.mono {v v' : KeyView} (h : g.Fits v) (hslot : v'.slot = v.slot)
    (hres : v'.Resident → v.Resident) : g.Fits v' :=
  ⟨fun s hs => hslot ▸ h.slot s hs, fun hfree hv' => h.free hfree (hres hv')⟩

namespace SlotInv

variable {v v' : KeyView} {gs : List Holding} {i : ℕ} {g : Holding} {st : Stake}

/-- After a call, the invariant has to be shown of the view, of the caller and of the others. -/
theorem set (howns : ∀ e p n o, v'.entry = some e → e.location = .memoryTier p n o →
      v'.slot = some ⟨p, n⟩)
    (hsized : ∀ s, v'.slot = some s → s.size ≠ 0) (hremoved : v'.pin.removed → ¬ v'.Resident)
    (hself : st.Fits v') (hothers : ∀ x ∈ gs.eraseIdx i, x.stake.Fits v') (r : Bool) :
    SlotInv v' (gs.set i ⟨r, st⟩) :=
  ⟨howns, hsized, hremoved, fun x hx => by
    rcases mem_set_cases hx with rfl | hx
    · exact hself
    · exact hothers x hx⟩

variable (h : SlotInv v gs)
include h

theorem others (x : Holding) (hx : x ∈ gs.eraseIdx i) : x.stake.Fits v :=
  h.fits x (mem_of_mem_eraseIdx hx)

/-- A call after which the slot is the same, no entry came to be resident, and the ledger knows of
no more removed entries. -/
theorem set_mono (howns : ∀ e p n o, v'.entry = some e → e.location = .memoryTier p n o →
      ∃ e o, v.entry = some e ∧ e.location = .memoryTier p n o)
    (hslot : v'.slot = v.slot) (hremoved : v'.pin.removed → v.pin.removed ∨ ¬ v.Resident)
    (hself : st.Fits v') (r : Bool) : SlotInv v' (gs.set i ⟨r, st⟩) := by
  have hres : v'.Resident → v.Resident := by
    rintro ⟨e, he, p, n, o, hloc⟩
    obtain ⟨e', o', he', hloc'⟩ := howns e p n o he hloc
    exact ⟨e', he', p, n, o', hloc'⟩
  refine set (fun e p n o he hloc => ?_) (fun s hs => h.sized s (hslot ▸ hs)) (fun hr hv' => ?_)
    hself (fun x hx => (h.others x hx).mono hslot hres) r
  · obtain ⟨e', o', he', hloc'⟩ := howns e p n o he hloc
    exact hslot ▸ h.owns e' p n o' he' hloc'
  · rcases hremoved hr with hr | hv
    · exact h.removed hr (hres hv')
    · exact hv (hres hv')

/-! ### Calls of the dispatch map -/

omit h in
theorem not_resident_of_none (h : v.entry = none) : ¬ v.Resident := by
  rintro ⟨e, he, -⟩
  rw [h] at he
  cases he

omit h in
theorem not_resident_of_block {e : DispatchEntry} {o : UInt64} (h : v.entry = some e)
    (hloc : e.location = .blockDevice o) : ¬ v.Resident := by
  rintro ⟨e', he', p, n, o', hloc'⟩
  rw [h] at he'
  cases he'
  rw [hloc] at hloc'
  cases hloc'

omit h in
theorem resident_of_entry (h : v'.entry = v.entry) : v'.Resident → v.Resident := by
  rintro ⟨e, he, hloc⟩
  exact ⟨e, h ▸ he, hloc⟩

/-- A call after which the entry is where it was, if it is there. -/
theorem set_same
    (hentry : ∀ e', v'.entry = some e' → ∃ e, v.entry = some e ∧ e.location = e'.location)
    (hslot : v'.slot = v.slot) (hpin : v'.pin = v.pin) (hself : st.Fits v') (r : Bool) :
    SlotInv v' (gs.set i ⟨r, st⟩) := by
  refine h.set_mono (fun e p n o he hloc => ?_) hslot (fun hr => .inl (hpin ▸ hr)) hself r
  obtain ⟨e', he', hloc'⟩ := hentry e he
  exact ⟨e', o, he', hloc'.trans hloc⟩

theorem set_left (hentry : v'.entry = v.entry ∨ ¬ v'.Resident)
    (hslot : v'.slot = v.slot) (hpin : v'.pin = v.pin) (hself : st.Fits v') (r : Bool) :
    SlotInv v' (gs.set i ⟨r, st⟩) := by
  refine h.set_mono (fun e p n o he hloc => ?_) hslot (fun hr => .inl (hpin ▸ hr)) hself r
  rcases hentry with hentry | hres
  · exact ⟨e, o, hentry ▸ he, hloc⟩
  · exact absurd ⟨e, he, p, n, o, hloc⟩ hres

variable {a : Except DispatchMapError Unit} {guard : DispatchEntry → Prop}

omit h in
/-- Operations on the references of an entry leave it where it is. -/
theorem location_of_modifies {f : DispatchEntry → DispatchEntry} {e e' : Option DispatchEntry}
    (h : Modifies guard f a e e') (hf : ∀ x, (f x).location = x.location) :
    ∀ x', e' = some x' → ∃ x, e = some x ∧ x.location = x'.location := by
  rintro x' rfl
  rcases h with ⟨-, heq, -⟩ | ⟨-, x, hx, -, heq⟩
  · exact ⟨x', heq.symm, rfl⟩
  · cases heq
    exact ⟨x, hx, (hf x).symm⟩

omit h in
/-- An operation that demotes an entry, if it does anything. -/
theorem left_of_modifies
    (h : Modifies guard (fun x => { x with location := x.location.demoted }) a v.entry v'.entry)
    (hguard : ∀ x, guard x → x.location.Written) :
    (∃ err, a = .error err) ∧ v'.entry = v.entry ∨
      a = .ok () ∧ ¬ v'.Resident ∧ ∃ x, v.entry = some x ∧ guard x := by
  rcases h with ⟨herr, heq, -⟩ | ⟨hok, x, hx, hx', heq⟩
  · exact .inl ⟨herr, heq⟩
  · obtain ⟨o, hloc⟩ := (hguard x hx').demoted_eq
    exact .inr ⟨hok, not_resident_of_block heq hloc, x, hx, hx'⟩

omit h in
theorem Resident.of_written {x : DispatchEntry} (hx : v.entry = some x)
    (hloc : x.location.Written) : v.Resident := by
  obtain ⟨p, n, o, hloc⟩ := hloc
  exact ⟨x, hx, p, n, _, hloc⟩

theorem step_lookup {k : CacheKey} {a : Except DispatchMapError LookupResult} (hfits : st.Fits v)
    (hgen : a ≠ .ok .mismatchSize) (heff : (MapCall.lookup k).Effect a v.entry v'.entry)
    (hslot : v'.slot = v.slot) (hpin : v'.pin = v.pin) (r : Bool) :
    st.Expects (.map (.lookup k)) a ∧ SlotInv v' (gs.set i ⟨r, st.afterMap r (.lookup k) a⟩) := by
  have hentry : ∀ e', v'.entry = some e' → ∃ e, v.entry = some e ∧ e.location = e'.location := by
    rcases heff with ⟨-, -, h'⟩ | ⟨-, h'⟩ | ⟨x, hx, -, -, h'⟩ <;> intro e' he'
    · rw [h'] at he'
      cases he'
    · exact ⟨e', h' ▸ he', rfl⟩
    · rw [h'] at he'
      cases he'
      exact ⟨x, hx, rfl⟩
  have hfits' : st.Fits v' := hfits.mono hslot fun ⟨e', he', hloc⟩ => by
    obtain ⟨e, he, heq⟩ := hentry e' he'
    exact ⟨e, he, heq ▸ hloc⟩
  -- an entry found in the memory tier is on the slot of the key
  have hfound : ∀ p n, a = .ok (.memoryTier p n) → v.slot = some ⟨p, n⟩ := by
    rintro p n rfl
    rcases heff with ⟨heq, -⟩ | ⟨⟨err, heq⟩, -⟩ | ⟨x, hx, -, heq, -⟩
    · cases heq
    · cases heq
    · cases hloc : x.location <;> rw [hloc] at heq <;> cases heq
      exact h.owns x p n _ hx hloc
  have hnone : a = .ok .notExist → ¬ v'.Resident := by
    rintro rfl
    rcases heff with ⟨-, -, h'⟩ | ⟨⟨err, heq⟩, -⟩ | ⟨x, -, -, heq, -⟩
    · exact not_resident_of_none h'
    · cases heq
    · cases hloc : x.location <;> rw [hloc] at heq <;> cases heq
  have hblock : ∀ o, a = .ok (.blockDevice o) → ¬ v'.Resident := by
    rintro o rfl
    rcases heff with ⟨heq, -⟩ | ⟨⟨err, heq⟩, -⟩ | ⟨x, hx, -, heq, h'⟩
    · cases heq
    · cases heq
    · cases hloc : x.location <;> rw [hloc] at heq <;> cases heq
      exact not_resident_of_block h' hloc
  have hexpects : st.Expects (.map (.lookup k)) a := fun s p n hs ha => by
    have hslots := hfits.slot s hs
    rw [hfound p n ha] at hslots
    exact congrArg Slot.offset (some.inj hslots)
  refine ⟨hexpects, h.set_same hentry hslot hpin ?_ r⟩
  have hseen : ∀ p n, a = .ok (.memoryTier p n) → (Stake.seen ⟨p, n⟩).Fits v' := fun p n ha =>
    ⟨fun s hs => by cases hs; rw [hslot]; exact hfound p n ha, fun hf => by cases hf⟩
  -- a store that holds the slot learns whether it is to free it
  have hheld : ∀ s, st.slot? = some s → ∀ res, a = .ok res →
      ((Stake.reserved s).afterLookup (.ok res)).Fits v' := by
    intro s hs res ha
    cases res with
    | notExist => exact Stake.fits_owes (hnone ha)
    | mismatchSize => exact absurd ha hgen
    | blockDevice o => exact Stake.fits_owes (hblock o ha)
    | memoryTier p n =>
      show (if p = s.offset then Stake.none else .owes).Fits v'
      rw [if_pos (hexpects s p n hs ha)]
      exact Stake.fits_none v'
  cases r
  · rcases a with e | res
    · cases st
      case reserved | seen => exact Stake.fits_none v'
      all_goals exact hfits'.expire
    · cases st
      case reserved s | seen s =>
        have hfit := hheld s rfl res rfl
        cases res <;> exact hfit
      all_goals cases res <;> exact hfits'.expire
  · rcases a with e | res
    · cases st <;> exact Stake.fits_none v'
    · cases res with
      | mismatchSize => exact absurd rfl hgen
      | notExist => cases st <;> exact Stake.fits_none v'
      | blockDevice o =>
        cases st
        case flipped => exact hfits'
        all_goals exact Stake.fits_none v'
      | memoryTier p n =>
        cases st
        case flipped => exact Stake.fits_none v'
        all_goals exact hseen p n rfl

/-- A slot becomes that of an entry: its holder publishes it. -/
theorem step_publish {p : Pointer} {n : UInt32} {e' : DispatchEntry} {o : Option UInt64}
    (hslot : v.slot = some ⟨p, n⟩) (hothers : ∀ x ∈ gs.eraseIdx i, x.stake.mayFree = false)
    (hpin : v.pin.removed = false) (he' : v'.entry = some e')
    (hloc : e'.location = .memoryTier p n o) (hslot' : v'.slot = v.slot)
    (hpin' : v'.pin = v.pin) (r : Bool) : SlotInv v' (gs.set i ⟨r, .none⟩) := by
  refine set (fun e p' n' o' he hloc' => ?_) (fun s hs => h.sized s (hslot' ▸ hs)) (fun hr => ?_)
    (Stake.fits_none v') (fun x hx => ⟨fun s hs => ?_, fun hf => ?_⟩) r
  · rw [he'] at he
    cases he
    rw [hloc] at hloc'
    cases hloc'
    rw [hslot', hslot]
  · rw [hpin', hpin] at hr
    cases hr
  · rw [hslot']
    exact (h.others x hx).slot s hs
  · rw [hothers x hx] at hf
    cases hf

/-- **A call of the dispatch map** about the key. -/
theorem step_map {c : MapCall} {a : c.Answer} (hfits : st.Fits v)
    (hallows : st.Allows (.map c)) (hx : Exclusive v (gs.eraseIdx i) (.map c))
    (hgen : (Call.map c).Genuine a) (heff : c.Effect a v.entry v'.entry)
    (hslot : v'.slot = v.slot) (hpin : v'.pin = v.pin) (r : Bool) :
    st.Expects (.map c) a ∧ SlotInv v' (gs.set i ⟨r, st.afterMap r c a⟩) := by
  have hfits' : (v'.Resident → v.Resident) → st.Fits v' := fun hres => hfits.mono hslot hres
  -- the calls that leave the entry where it is
  have hsame : (∀ e', v'.entry = some e' → ∃ e, v.entry = some e ∧ e.location = e'.location) →
      SlotInv v' (gs.set i ⟨r, st.expire⟩) := fun hentry =>
    h.set_same hentry hslot hpin (hfits' fun ⟨e', he', hloc⟩ => by
      obtain ⟨e, he, heq⟩ := hentry e' he'
      exact ⟨e, he, heq ▸ hloc⟩).expire r
  cases c with
  | lookup k => exact step_lookup h hfits hgen heff hslot hpin r
  | takeRead k | releaseRead k | releaseWrite k =>
    exact ⟨trivial, hsame (location_of_modifies heff fun _ => rfl)⟩
  | downgradeReference k =>
    rcases heff with heff | ⟨x, hx, -, -, -, hx'⟩
    · exact ⟨trivial, hsame (location_of_modifies heff fun _ => rfl)⟩
    · refine ⟨trivial, hsame fun e' he' => ⟨x, hx, ?_⟩⟩
      rw [hx'] at he'
      cases he'
      rfl
  | entrySize k =>
    have hentry : v'.entry = v.entry := heff.1
    have hsame' := hsame fun e' he' => ⟨e', hentry ▸ he', rfl⟩
    refine ⟨trivial, ?_⟩
    rcases a with e | n
    · exact hsame'
    · cases st with
      | reserved s =>
        show SlotInv v' (gs.set i ⟨r, if n = s.size then .none else .reserved s⟩)
        split_ifs
        · exact h.set_left (.inl hentry) hslot hpin (Stake.fits_none v') r
        · exact hsame'
      | _ => exact hsame'
  | oldestKeys n => exact ⟨trivial, hsame fun e' he' => ⟨e', heff ▸ he', rfl⟩⟩
  | convertToStorage k o =>
    have howns : ∀ e p n o, v'.entry = some e → e.location = .memoryTier p n o →
        ∃ e o, v.entry = some e ∧ e.location = .memoryTier p n o := by
      intro e p n o' he hloc
      rcases heff with ⟨-, heq, -⟩ | ⟨-, x, hx, ⟨p', n', old, hloc'⟩, heq⟩
      · exact ⟨e, o', heq ▸ he, hloc⟩
      · rw [he] at heq
        cases heq
        simp only [DispatchMap.withStorage, hloc'] at hloc
        cases hloc
        exact ⟨x, old, hx, hloc'⟩
    refine ⟨trivial, h.set_mono howns hslot (fun hr => .inl (hpin ▸ hr)) (hfits' ?_).expire r⟩
    rintro ⟨e, he, p, n, o', hloc⟩
    obtain ⟨x, old, hx, hloc'⟩ := howns e p n o' he hloc
    exact ⟨x, hx, p, n, old, hloc'⟩
  | remove k =>
    rcases heff with ⟨rfl, hv, hv'⟩ | ⟨rfl, heq, -⟩ | ⟨rfl, hv', -⟩
    · have hgone : ¬ v'.Resident := not_resident_of_none hv'
      refine ⟨.inr (.inl ⟨k, rfl⟩), h.set_left (.inr hgone) hslot hpin ?_ r⟩
      cases st
      case reserved | seen | flipped =>
        exact ⟨fun s hs => hslot ▸ hfits.slot s hs, fun _ => hgone⟩
      all_goals
        show (if r then Stake.none else .freed).Fits v'
        split_ifs
        · exact Stake.fits_none v'
        · exact Stake.fits_freed hgone
    · exact ⟨.inr (.inr ⟨k, rfl⟩),
        h.set_left (.inl heq) hslot hpin (hfits' (resident_of_entry heq)).expire r⟩
    · have hgone : ¬ v'.Resident := not_resident_of_none hv'
      exact ⟨.inl rfl, h.set_left (.inr hgone) hslot hpin (Stake.fits_owes hgone) r⟩
  | tryEvictToBlock k =>
    rcases left_of_modifies heff fun _ hx => hx.2.2 with ⟨⟨e, rfl⟩, heq⟩ | ⟨rfl, hgone, x, hx, hw⟩
    · exact ⟨fun _ _ => nofun,
        h.set_left (.inl heq) hslot hpin (hfits' (resident_of_entry heq)).expire r⟩
    · refine ⟨fun s hs => ?_, h.set_left (.inr hgone) hslot hpin (Stake.fits_owes hgone) r⟩
      exact absurd (Resident.of_written hx hw.2.2) (hfits.free (hs ▸ rfl))
  | convertMemoryTierToBlock k =>
    obtain ⟨s, rfl⟩ := hallows
    rcases left_of_modifies heff fun _ hx => hx with ⟨⟨e, rfl⟩, heq⟩ | ⟨rfl, hgone, -⟩
    · exact ⟨trivial, h.set_left (.inl heq) hslot hpin (Stake.fits_none v') r⟩
    · refine ⟨trivial, h.set_left (.inr hgone) hslot hpin ?_ r⟩
      exact ⟨fun s' hs' => hslot ▸ hfits.slot s' hs', nofun⟩
  | createMemoryTierEntry k p n =>
    obtain ⟨s, hst, rfl⟩ := hallows
    have hs : v.slot = some s := hfits.slot s (by rcases hst with rfl | rfl <;> rfl)
    obtain ⟨hothers, hremoved, hsize⟩ := hx
    obtain rfl : s.size = n := hsize s hs
    rcases heff with ⟨-, hzero, -⟩ | ⟨rfl, heq, -⟩ | ⟨rfl, -, -, hv'⟩
    · exact absurd hzero (h.sized s hs)
    · exact ⟨.inr ⟨k, rfl⟩,
        h.set_left (.inl heq) hslot hpin (hfits' (resident_of_entry heq)).expire r⟩
    · exact ⟨.inl rfl, h.step_publish hs hothers hremoved hv' rfl hslot hpin r⟩
  | promoteBlockToMemoryTier k p n =>
    have hs : v.slot = some ⟨p, n⟩ := hfits.slot _ hallows
    rcases heff with ⟨⟨e, rfl⟩, heq, -⟩ | ⟨rfl, -, x, o, -, -, hv'⟩
    · have hfit : st.Fits v' := hfits' (resident_of_entry heq)
      refine ⟨trivial, h.set_left (.inl heq) hslot hpin ?_ r⟩
      cases st
      case reserved => exact hfit
      all_goals exact Stake.fits_none v'
    · exact ⟨trivial, h.step_publish hs hx.1 hx.2 hv' rfl hslot hpin r⟩

/-! ### Calls of the memory tier and of the ledger -/

/-- **A call of the memory tier** about the key. -/
theorem step_tier {c : TierCall} {a : c.Answer} (hfits : st.Fits v)
    (hallows : st.Allows (.tier c)) (hx : Exclusive v (gs.eraseIdx i) (.tier c))
    (heff : c.Effect a v.slot v'.slot) (hentry : v'.entry = v.entry) (hpin : v'.pin = v.pin)
    (r : Bool) : st.Expects (.tier c) a ∧ SlotInv v' (gs.set i ⟨r, st.afterTier c a⟩) := by
  have hres : v'.Resident ↔ v.Resident := by unfold KeyView.Resident; rw [hentry]
  have hsame : v'.slot = v.slot → ∀ st' : Stake, st'.Fits v → SlotInv v' (gs.set i ⟨r, st'⟩) :=
    fun hslot st' hst' => h.set_left (.inl hentry) hslot hpin (hst'.mono hslot hres.mp) r
  cases c with
  | insert k n =>
    rcases heff with ⟨⟨e, rfl⟩, hslot⟩ | ⟨p, rfl, hn, hnone, hslot⟩
    · exact ⟨trivial, hsame hslot _ hfits.expire⟩
    · -- a key without a slot has no resident entry, and nobody relies on its slot
      have hgone : ¬ v.Resident := by
        rintro ⟨e, he, p', n', o, hloc⟩
        have hs := h.owns e p' n' o he hloc
        rw [hnone] at hs
        cases hs
      refine ⟨trivial, set (fun e p' n' o he hloc => ?_) (fun s hs => ?_)
        (fun hr hv' => hgone (hres.mp hv')) ⟨fun s hs => ?_, fun _ hv' => hgone (hres.mp hv')⟩
        (fun x hx => ⟨fun s hs => ?_, fun hf hv' => (h.others x hx).free hf (hres.mp hv')⟩) r⟩
      · exact absurd ⟨e, hentry ▸ he, p', n', o, hloc⟩ hgone
      · rw [hslot] at hs
        cases hs
        exact hn
      · cases hs
        exact hslot
      · have hs' := (h.others x hx).slot s hs
        rw [hnone] at hs'
        cases hs'
  | get k =>
    obtain ⟨hslot, rfl⟩ := heff
    refine ⟨fun s hs => ?_, ?_⟩
    · rw [hfits.slot s (by rw [hs]; rfl)]
      rfl
    · cases hv : v.slot with
      | none => exact hsame hslot _ hfits.expire
      | some s =>
        have hseen : (Stake.seen s).Fits v :=
          ⟨fun s' hs' => by cases hs'; exact hv, nofun⟩
        cases st
        case reserved => exact hsame hslot _ hfits
        all_goals exact hsame hslot _ hseen
  | peek k => exact ⟨trivial, hsame heff.1 _ hfits.expire⟩
  | contains k =>
    refine ⟨fun s hs => ?_, hsame heff.1 _ hfits.expire⟩
    rw [heff.2, hfits.slot s hs]
    rfl
  | usage | oldestKeys n => exact ⟨trivial, hsame heff _ hfits.expire⟩
  | remove k =>
    have hslot : v'.slot = none := heff
    -- whoever may free the slot does not take it from an entry
    have hgone : ¬ v.Resident := by
      refine hfits.free ?_
      rcases hallows with ⟨s, rfl⟩ | rfl | rfl <;> rfl
    refine ⟨trivial, set (fun e p n o he hloc => ?_) (fun s hs => ?_)
      (fun hr hv' => hgone (hres.mp hv')) ?_
      (fun x hx' => ⟨fun s hs => ?_, fun hf hv' => (h.others x hx').free hf (hres.mp hv')⟩) r⟩
    · exact absurd ⟨e, hentry ▸ he, p, n, o, hloc⟩ hgone
    · rw [hslot] at hs
      cases hs
    · have hgone' : ¬ v'.Resident := fun hv' => hgone (hres.mp hv')
      rcases hallows with ⟨s, rfl⟩ | rfl | rfl
      · exact Stake.fits_freed hgone'
      · exact Stake.fits_none v'
      · exact Stake.fits_none v'
    · rw [hx x hx'] at hs
      cases hs

omit h in
theorem removed_of_forgets {p p' : PinState} (h : p.Forgets p') (hr : p'.removed) : p.removed := by
  rcases h with rfl | ⟨-, rfl⟩
  · exact hr
  · cases hr

omit h in
/-- The ledger learns of a removed entry only when it is told that the pin was taken over. -/
theorem removed_of_pins {c : PinCall} {a : c.Answer} {writer : Bool} {p p' : PinState}
    (heff : c.Effect writer a p p') (hr : p'.removed) : p.removed ∨ ∃ k, c = .tookOver k := by
  cases c with
  | tookOver k => exact .inr ⟨k, rfl⟩
  | start k =>
    rcases heff with ⟨-, -, hf⟩ | ⟨-, -, -, heq⟩ | ⟨-, -, -, heq⟩
    · have hr' := removed_of_forgets hf hr
      exact .inl hr'
    · exact .inl (heq ▸ hr)
    · rw [heq] at hr
      exact .inl hr
  | finish k =>
    rw [heff.2] at hr
    cases hr
  | pin job =>
    have heff : p' = _ := heff
    rw [heff] at hr
    exact .inl hr
  | settled k => exact .inl (removed_of_forgets heff hr)
  | takeOver k => exact .inl (heff.2 ▸ hr)
  | gaveUp k | recordWrite k landed => exact .inl (heff ▸ hr)

/-- **A call of the ledger** about the key. -/
theorem step_pins {c : PinCall} {a : c.Answer} {writer : Bool}
    (hfits : st.Fits v) (hallows : st.Allows (.pins c)) (heff : c.Effect writer a v.pin v'.pin)
    (hentry : v'.entry = v.entry) (hslot : v'.slot = v.slot) (r : Bool) :
    SlotInv v' (gs.set i ⟨r, st.afterPins c a⟩) := by
  have hres : v'.Resident ↔ v.Resident := by unfold KeyView.Resident; rw [hentry]
  -- the entry was taken away before the running job is told
  have hremoved : v'.pin.removed → v.pin.removed ∨ ¬ v.Resident := fun hr =>
    (removed_of_pins heff hr).imp_right fun ⟨k, hk⟩ => by
      subst hk
      obtain rfl : st = .owes := hallows
      exact hfits.free rfl
  have hset : ∀ st' : Stake, st'.Fits v → SlotInv v' (gs.set i ⟨r, st'⟩) := fun st' hst' =>
    h.set_mono (fun e p n o he hloc => ⟨e, o, hentry ▸ he, hloc⟩) hslot hremoved
      (hst'.mono hslot hres.mp) r
  cases c with
  | finish k =>
    cases a with
    | true => exact hset _ hfits.expire
    | false => exact hset _ (Stake.fits_owes (h.removed (by simpa using heff.1.symm)))
  | tookOver k =>
    obtain rfl : st = .owes := hallows
    cases a with
    | true => exact hset _ (Stake.fits_none v)
    | false => exact hset _ hfits
  | pin job | start k | settled k | takeOver k | gaveUp k | recordWrite k landed =>
    exact hset _ hfits.expire

end SlotInv

/-! ## Whole runs -/

/-- **What the steps of an uncrossed run are asked for**: a procedure frees the slot of a key only
while no other procedure relies on it, and publishes it only while no other procedure is entitled to
free it and no job is left to do so; a commit gives the size of its reservation. -/
def Uncrossed (s : System) : SystemMove → Prop
  | .spawn _ => True
  | .step i _ =>
    match s.threads[i]?.bind Thread.next with
    | none => True
    | some c =>
      match c.key with
      | none => True
      | some k => Exclusive (s.shared.view k) ((s.ghosts (slotDiscipline k)).eraseIdx i) c

instance (v : KeyView) (others : List Holding) (c : Call) : Decidable (Exclusive v others c) := by
  unfold Exclusive
  split <;> infer_instance

instance (s : System) (m : SystemMove) : Decidable (Uncrossed s m) :=
  match m with
  | .spawn _ => instDecidableTrue
  | .step i _ => by
    dsimp only [Uncrossed]
    generalize s.threads[i]?.bind Thread.next = call
    exact match call with
      | none => instDecidableTrue
      | some c => by
        dsimp only
        generalize c.key = key
        exact match key with
          | none => instDecidableTrue
          | some k => inferInstance

/-- What an uncrossed step asks of a call about `k`. -/
theorem Uncrossed.exclusive {r : Request} {f : c.Answer → Proc Unit}
    {past : List (Sigma Call.Answer)} (h : Uncrossed s (.step i o))
    (hi : s.threads[i]? = some ⟨r, .call c f, past⟩) (hk : c.key = some k) :
    Exclusive (s.shared.view k) ((s.ghosts (slotDiscipline k)).eraseIdx i) c := by
  simpa [Uncrossed, hi, Thread.next, hk] using h

theorem SlotInv.lapse {gs : List Holding} {st : Stake} (h : SlotInv v gs) (hst : st.Fits v)
    (r : Bool) : SlotInv v (gs.set i ⟨r, st⟩) :=
  h.set_left (.inl rfl) rfl rfl hst r

/-- **A call**, about the key or not, keeps the invariant of the key. -/
theorem slotInv_call {a : c.Answer} {σ' : Shared} {g : Holding}
    (h : SlotInv (s.shared.view k) (s.ghosts (slotDiscipline k)))
    (hg : (s.ghosts (slotDiscipline k))[i]? = some g) (hallowed : (slotDiscipline k).allowed g c)
    (hx : c.key = some k →
      Exclusive (s.shared.view k) ((s.ghosts (slotDiscipline k)).eraseIdx i) c)
    (hexec : c.exec o s.shared = some (a, σ')) :
    (slotDiscipline k).possible g c a ∧
      SlotInv (σ'.view k)
        ((s.ghosts (slotDiscipline k)).set i ((slotDiscipline k).after g c a)) := by
  have hfits : g.stake.Fits (s.shared.view k) := h.fits g (mem_of_getElem? hg)
  have hgen := genuine_exec hexec
  by_cases hk : c.key = some k
  · have heff := view_exec hexec hk
    have hafter : (slotDiscipline k).after g c a = ⟨g.removes, g.stake.after g.removes c a⟩ := by
      show Holding.after k g c a = _
      rw [Holding.after, if_pos hk]
    rw [hafter]
    cases c
    case map c =>
      obtain ⟨heff, hslot, hpin⟩ := heff
      obtain ⟨hexpects, hinv⟩ := h.step_map hfits (hallowed hk) (hx hk) hgen heff hslot hpin
        g.removes
      exact ⟨⟨hgen, fun _ => hexpects⟩, hinv⟩
    case tier c =>
      obtain ⟨heff, hentry, hpin⟩ := heff
      obtain ⟨hexpects, hinv⟩ := h.step_tier hfits (hallowed hk) (hx hk) heff hentry hpin g.removes
      exact ⟨⟨hgen, fun _ => hexpects⟩, hinv⟩
    case pins c =>
      obtain ⟨heff, hentry, hslot⟩ := heff
      exact ⟨⟨hgen, fun _ => trivial⟩, h.step_pins hfits (hallowed hk) heff hentry hslot g.removes⟩
    all_goals cases hk
  · refine ⟨⟨hgen, fun heq => absurd heq hk⟩, ?_⟩
    rw [view_exec_of_ne hexec hk]
    refine h.lapse (r := g.removes) ?_
    rw [if_neg hk]
    unfold Stake.elsewhere
    split
    · split_ifs
      · exact Stake.fits_none _
      · exact hfits.expire
    · exact hfits.expire

theorem slotInv_init (k : CacheKey) (capacity numDrives blockSize : ℕ)
    (extents : OrdMap UInt64 Extent) (disk : Bytes) :
    SlotInv ((Shared.init capacity numDrives blockSize extents disk).view k) [] where
  owns e p n o he hloc := by
    obtain ⟨loc, ext, -, -, -, rfl⟩ := recoverEntries_get? he
    cases hloc
  sized s hs := by cases hs
  removed hr := by cases hr
  fits g hg := by cases hg

/-- Along an uncrossed run, the procedures keep to the discipline of every key and its invariant
holds. -/
theorem disciplined_slots (k : CacheKey) {capacity numDrives blockSize : ℕ}
    {extents : OrdMap UInt64 Extent} {disk : Bytes} {ms : List SystemMove} {t : System}
    (hrun : Run machine.step Uncrossed (System.init capacity numDrives blockSize extents disk)
      ms t) :
    Disciplined (slotDiscipline k) (fun _ => True) (fun σ gs => SlotInv (σ.view k) gs) t := by
  refine Machine.disciplined (fun r => body_follows_slotDiscipline k r) ?_ ?_ ?_
    ⟨slotInv_init k capacity numDrives blockSize extents disk, fun u hu => by cases hu⟩ hrun
  · intro s r σ' hinv _ haccept
    rw [(view_accept haccept k).1]
    refine ⟨hinv.owns, hinv.sized, hinv.removed, fun g hg => ?_⟩
    rcases mem_append.mp hg with hg | hg
    · exact hinv.fits g hg
    · obtain rfl := mem_singleton.mp hg
      exact Stake.fits_none _
  · exact fun σ gs i g _ _ hinv => hinv.lapse (Stake.fits_none _) false
  · intro s i o r c f past a σ' hs hi hguard hallowed hexec
    exact slotInv_call hs.inv (Pool.ghosts_getElem? hi) hallowed (hguard.exclusive hi) hexec

/-- **A resident entry owns its slot.** Along every uncrossed run, an entry in the memory tier has
the pointer and the size of the slot allocated under its key; and no procedure is about to free the
slot of a key whose entry is in the memory tier. -/
theorem resident_owns_slot {capacity numDrives blockSize : ℕ} {extents : OrdMap UInt64 Extent}
    {disk : Bytes} {ms : List SystemMove} {t : System}
    (hrun : Run machine.step Uncrossed (System.init capacity numDrives blockSize extents disk)
      ms t) :
    (∀ k e p n o, t.shared.map.get? k = some e → e.location = .memoryTier p n o →
      t.shared.tier.slots.get? k = some ⟨p, n⟩) ∧
    ∀ th ∈ t.threads, ∀ k, th.next = some (.tier (.remove k)) →
      ∀ e, t.shared.map.get? k = some e → ¬ e.location.Resident := by
  refine ⟨fun k e p n o he hloc => (disciplined_slots k hrun).inv.owns e p n o he hloc,
    fun th hth k hnext e he hres => ?_⟩
  have hk := disciplined_slots k hrun
  obtain ⟨r, rest, past⟩ := th
  cases rest with
  | ret a => cases hnext
  | call c f =>
    cases hnext
    have hallowed := (hk.follows _ hth).1 rfl
    have hfits := hk.inv.fits _ (mem_map.mpr ⟨_, hth, rfl⟩)
    refine hfits.free ?_ ⟨e, he, hres⟩
    rcases hallowed with ⟨s, hs⟩ | hs | hs <;> exact hs ▸ rfl

/-- An uncrossed run: a value is stored, written through, demoted to make room, and promoted by a
lookup. -/
def storeDemotePromote : List SystemMove :=
  ([.spawn (.populate 1 4096 1 0 0)] : List SystemMove) ++
    replicate 10 (.step 0 {} : SystemMove) ++
    ([.spawn (.writeJob ⟨1, 4096, 0⟩ 1)] : List SystemMove) ++
    replicate 10 (.step 1 {} : SystemMove) ++
    ([.spawn (.evictOneClean 4), .step 2 { keys := [1] }] : List SystemMove) ++
    replicate 2 (.step 2 {} : SystemMove) ++ ([.spawn (.lookup 1 4096 1 1)] : List SystemMove) ++
    replicate 8 (.step 3 {} : SystemMove)

theorem resident_owns_slot_promoted :
    ∃ t, Run machine.step Uncrossed (System.fresh 8192 1 512) storeDemotePromote t ∧
      (∃ e, t.shared.map.get? 1 = some e ∧ e.location = .memoryTier 0 4096 (some 0)) ∧
      t.shared.tier.slots.get? 1 = some ⟨0, 4096⟩ := by
  refine exists_run_and_of_checkedExec (fun t => (t.shared.map.get? 1).map DispatchEntry.location
    == some (.memoryTier 0 4096 (some 0))) (by decide +kernel) fun hrun ht => ?_
  obtain ⟨e, he, hloc⟩ := map_eq_some_iff.mp (beq_iff_eq.mp ht)
  exact ⟨⟨e, he, hloc⟩, (resident_owns_slot hrun).1 1 e 0 4096 (some 0) he hloc⟩

/-- Three procedures cross on a key: the evictor has demoted the entry and is about to free its
slot; the key is removed and stored again; then the evictor frees the slot of the new entry. -/
def evictorCrossesStore : List SystemMove :=
  ([.spawn (.populate 1 4096 1 0 0)] : List SystemMove) ++
    replicate 10 (.step 0 {} : SystemMove) ++
    ([.spawn (.writeJob ⟨1, 4096, 0⟩ 1)] : List SystemMove) ++
    replicate 10 (.step 1 {} : SystemMove) ++
    ([.spawn (.evictOneClean 4), .step 2 { keys := [1] }, .step 2 {}] : List SystemMove) ++
    ([.spawn (.remove 1)] : List SystemMove) ++ replicate 5 (.step 3 {} : SystemMove) ++
    ([.spawn (.populate 1 4096 1 0 0)] : List SystemMove) ++
    replicate 10 (.step 4 {} : SystemMove) ++ ([.step 2 {}] : List SystemMove)

theorem resident_without_slot :
    ∃ t, Run machine.step anyStep (System.fresh 8192 1 512) evictorCrossesStore t ∧
      (∃ e, t.shared.map.get? 1 = some e ∧ e.location = .memoryTier 0 4096 none) ∧
      t.shared.tier.slots.get? 1 = none := by
  refine exists_run_and_of_exec (fun t => ((t.shared.map.get? 1).map DispatchEntry.location,
    t.shared.tier.slots.get? 1) == (some (.memoryTier 0 4096 none), none)) (by decide +kernel)
    fun hrun ht => ?_
  obtain ⟨hentry, hslot⟩ := Prod.mk.inj (beq_iff_eq.mp ht)
  obtain ⟨e, he, hloc⟩ := map_eq_some_iff.mp hentry
  exact ⟨⟨e, he, hloc⟩, hslot⟩

end Certus.Dispatcher
