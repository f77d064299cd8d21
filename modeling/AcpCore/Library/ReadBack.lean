import AcpCore.Library.Positions

/-!
# Alignments read back

Of the scripts that keep a longest common subsequence, the one that is read back from the
end: last elements that are related are kept; else that of the first sequence is deleted if
no more can be kept by keeping it, and else that of the second is inserted.

## The model

`LastPair` says, by lengths of longest common subsequences, which pair is the last one
kept. `ReadBack` is the script: before a last pair it is read back again, and in a gap
between two pairs all is inserted and then all deleted.

## What is proved

* `ReadBack.keep`, `ReadBack.delete`, `ReadBack.insert` — a step of reading back, from the end;
* `LastPair.unique`, `ReadBack.exists_of_lastPair` — only one pair can be the last;
* `ReadBack.le_lead_iff` — when a common prefix is kept;
* `ReadBack.pairs_swap_iff` — when the same pairs are kept of the sequences exchanged.
-/

namespace AcpCore.Alignment

variable {α β : Type} (R : α → β → Prop)

/-- The steps of a gap. -/
def gap (u : List α) (v : List β) : List (Edit α β) := v.map .insert ++ u.map .delete

/-- The pair of `x` and `y` is the last that is kept of `a ++ x :: u` and `b ++ y :: v`. -/
structure LastPair (k : ℕ) (a : List α) (x : α) (u : List α) (b : List β) (y : β) (v : List β) : Prop where
  /-- They are related. -/
  rel : R x y
  /-- How many pairs are kept before. -/
  before : Longest R a b k
  /-- With this pair they are a longest common subsequence. -/
  all : Longest R (a ++ x :: u) (b ++ y :: v) (k + 1)
  /-- Where `y` is at the end, it is paired with the last element it can be; else without `x` there is no
  common subsequence as long, and `x` is paired with the last element it can be. -/
  last : v = [] ∧ (∀ x' ∈ u, ¬ R x' y) ∨ v ≠ [] ∧ Longest R a (b ++ y :: v) k ∧ ∀ y' ∈ v, ¬ R x y'

/-- The script that is read back. -/
inductive ReadBack : List (Edit α β) → List α → List β → Prop where
  /-- Nothing is kept where nothing is in common. -/
  | none {a : List α} {b : List β} : Longest R a b 0 → ReadBack (gap a b) a b
  /-- The last pair is kept. -/
  | pair {k : ℕ} {es : List (Edit α β)} {a u : List α} {x : α} {b v : List β} {y : β} :
      LastPair R k a x u b y v → ReadBack es a b → ReadBack (es ++ .keep x y :: gap u v) (a ++ x :: u) (b ++ y :: v)

variable {R}

theorem kept_gap (u : List α) (v : List β) : (gap u v).filterMap Edit.kept = [] := by
  rw [gap, List.filterMap_append, List.filterMap_map, List.filterMap_map]
  simp [Function.comp_def, Edit.kept]

theorem Turns.of_gap (u : List α) (v : List β) : Turns R (gap u v) u v := by
  have h := (Turns.insert_all (R := R) v).append (Turns.delete_all u)
  rwa [List.nil_append, List.append_nil] at h

theorem gap_concat_left (u : List α) (x : α) (v : List β) : gap (u ++ [x]) v = gap u v ++ [.delete x] := by
  rw [gap, gap, List.map_append, List.append_assoc]
  rfl

theorem gap_concat_right (v : List β) (y : β) : gap ([] : List α) (v ++ [y]) = gap [] v ++ [.insert y] := by
  simp [gap]

/-- What is read back turns one sequence into the other, and keeps a longest common subsequence. -/
theorem ReadBack.turns {es : List (Edit α β)} {a : List α} {b : List β} (h : ReadBack R es a b) :
    Turns R es a b ∧ Longest R a b (es.filterMap Edit.kept).length := by
  induction h with
  | none hnone =>
    refine ⟨.of_gap _ _, ?_⟩
    rwa [kept_gap]
  | @pair k es a u x b v y hlast _ ih =>
    obtain ⟨hturns, hlong⟩ := ih
    refine ⟨hturns.append (.keep hlast.rel (.of_gap u v)), ?_⟩
    have hkept : (Edit.keep x y :: gap u v).filterMap Edit.kept = [(x, y)] := by
      rw [List.filterMap_cons, kept_gap]
      rfl
    rw [List.filterMap_append, hkept, List.length_append, List.length_singleton, hlong.unique hlast.before]
    exact hlast.all

/-- The last pair of what is read back, if there is one. -/
theorem ReadBack.exists_last {es : List (Edit α β)} {a : List α} {b : List β} (h : ReadBack R es a b) :
    Longest R a b 0 ∧ es = gap a b ∨
      ∃ k fs a' x u b' y v, a = a' ++ x :: u ∧ b = b' ++ y :: v ∧ es = fs ++ .keep x y :: gap u v ∧
        LastPair R k a' x u b' y v ∧ ReadBack R fs a' b' := by
  cases h with
  | none hnone => exact .inl ⟨hnone, rfl⟩
  | pair hlast hes => exact .inr ⟨_, _, _, _, _, _, _, _, rfl, rfl, rfl, hlast, hes⟩

/-! ### From the end -/

section

variable {es : List (Edit α β)} {a : List α} {b : List β} {x : α} {y : β}

theorem ReadBack.nil_left (b : List β) : ReadBack R (gap [] b) [] b := .none (.nil_left b)

theorem ReadBack.nil_right (a : List α) : ReadBack R (gap a []) a [] := .none (.nil_right a)

/-- Related last elements are kept. -/
theorem ReadBack.keep (hxy : R x y) (h : ReadBack R es a b) : ReadBack R (es ++ [.keep x y]) (a ++ [x]) (b ++ [y]) :=
  .pair ⟨hxy, h.turns.2, h.turns.2.concat_of_rel hxy, .inl ⟨rfl, fun _ h => (by cases h)⟩⟩ h

/-- The last element of the first sequence is deleted if no more is kept with it. -/
theorem ReadBack.delete (hxy : ¬ R x y) {k l : ℕ} (hk : Longest R a (b ++ [y]) k) (hl : Longest R (a ++ [x]) b l)
    (hle : l ≤ k) (h : ReadBack R es a (b ++ [y])) : ReadBack R (es ++ [.delete x]) (a ++ [x]) (b ++ [y]) := by
  have hall : Longest R (a ++ [x]) (b ++ [y]) k := by
    rw [← max_eq_left hle]
    exact .concat_of_not_rel hxy hk hl
  rcases h.exists_last with ⟨hnone, rfl⟩ | ⟨m, fs, a', x', u, b', y', v, rfl, hb, rfl, hlast, hfs⟩
  · rw [← gap_concat_left]
    exact .none (hk.unique hnone ▸ hall)
  · rw [hb] at hk hall ⊢
    rw [List.append_assoc, List.cons_append, ← gap_concat_left, List.append_assoc, List.cons_append]
    refine .pair ⟨hlast.rel, hlast.before, ?_, ?_⟩ hfs
    · rw [hk.unique hlast.all, List.append_assoc] at hall
      exact hall
    · refine hlast.last.imp_left fun ⟨hv, hu⟩ => ⟨hv, fun x'' hx'' => ?_⟩
      subst hv
      obtain ⟨-, rfl⟩ : b = b' ∧ y = y' := by simpa using hb
      rcases List.mem_append.mp hx'' with hx'' | hx''
      · exact hu x'' hx''
      · rwa [List.mem_singleton.mp hx'']

/-- Else the last element of the second is inserted. -/
theorem ReadBack.insert (hxy : ¬ R x y) {k l : ℕ} (hk : Longest R a (b ++ [y]) k) (hl : Longest R (a ++ [x]) b l)
    (hlt : k < l) (h : ReadBack R es (a ++ [x]) b) : ReadBack R (es ++ [.insert y]) (a ++ [x]) (b ++ [y]) := by
  have hall : Longest R (a ++ [x]) (b ++ [y]) l := by
    rw [← max_eq_right hlt.le]
    exact .concat_of_not_rel hxy hk hl
  rcases h.exists_last with ⟨hnone, -⟩ | ⟨m, fs, a', x', u, b', y', v, ha, rfl, rfl, hlast, hfs⟩
  · rw [hl.unique hnone] at hlt
    exact absurd hlt (Nat.not_lt_zero k)
  rw [ha] at hl
  have hlm := hl.unique hlast.all
  -- the last element of the first sequence is the one paired
  obtain rfl : u = [] := by
    rcases u.eq_nil_or_concat' with hu | ⟨u, x'', rfl⟩
    · exact hu
    obtain ⟨rfl, -⟩ : a = a' ++ x' :: u ∧ x = x'' := by
      rw [← List.cons_append, ← List.append_assoc] at ha
      exact ⟨List.append_inj_left' ha rfl, List.singleton_inj.mp (List.append_inj_right' ha rfl)⟩
    have hpaired : Longest R (a' ++ [x']) (b' ++ [y']) (m + 1) := hlast.before.concat_of_rel hlast.rel
    have hle := hpaired.le_of_sublist hk (by simp) (by simp)
    omega
  obtain ⟨rfl, rfl⟩ : a = a' ∧ x = x' := by simpa using ha
  rw [List.append_assoc, List.cons_append, ← gap_concat_right, List.append_assoc, List.cons_append]
  rw [List.append_assoc, List.cons_append] at hk hall
  refine .pair ⟨hlast.rel, hlast.before, hlm ▸ hall, .inr ⟨by simp, ?_, fun y'' hy'' => ?_⟩⟩ hfs
  · have hle := hlast.before.le_of_sublist hk (.refl _) (List.sublist_append_left ..)
    obtain rfl : m = k := by omega
    exact hk
  · rcases List.mem_append.mp hy'' with hy'' | hy''
    · rcases hlast.last with ⟨rfl, -⟩ | ⟨-, -, hv⟩
      · cases hy''
      · exact hv y'' hy''
    · rwa [List.mem_singleton.mp hy'']

end

/-! ### One last pair -/

/-- Two places in one list: the same, or one before the other. -/
theorem places {γ : Type} {s t s' t' : List γ} {x x' : γ} (h : s ++ x :: t = s' ++ x' :: t') :
    (s = s' ∧ x = x' ∧ t = t') ∨ (∃ m, s' = s ++ x :: m ∧ t = m ++ x' :: t') ∨
      ∃ m, s = s' ++ x' :: m ∧ t' = m ++ x :: t := by
  rcases List.append_eq_append_iff.mp h with ⟨m, rfl, hm⟩ | ⟨m, rfl, hm⟩
  · rcases List.cons_eq_append_iff.mp hm with ⟨rfl, hm⟩ | ⟨m, rfl, rfl⟩
    · cases hm
      exact .inl ⟨(List.append_nil s).symm, rfl, rfl⟩
    · exact .inr (.inl ⟨m, rfl, rfl⟩)
  · rcases List.cons_eq_append_iff.mp hm with ⟨rfl, hm⟩ | ⟨m, rfl, rfl⟩
    · cases hm
      exact .inl ⟨List.append_nil s', rfl, rfl⟩
    · exact .inr (.inr ⟨m, rfl, rfl⟩)

section

variable {k l : ℕ} {a u a' u' : List α} {x x' : α} {b v b' v' : List β} {y y' : β}

/-- The last pair's element of the first sequence is not before that of another. -/
theorem LastPair.not_before (h : LastPair R k a x u b y v) (h' : LastPair R l a' x' u' b' y' v')
    (hb : b ++ y :: v = b' ++ y' :: v') (m : List α) (ha' : a' = a ++ x :: m) (hu : u = m ++ x' :: u') : False := by
  subst ha' hu
  have hpaired : Longest R (a ++ [x]) (b ++ [y]) (k + 1) := h.before.concat_of_rel h.rel
  rcases h'.last with ⟨rfl, hu'⟩ | ⟨-, hwithout, -⟩
  · -- the other pair could be kept as well, after this one
    rcases v.eq_nil_or_concat' with rfl | ⟨v, z, rfl⟩
    · obtain ⟨rfl, rfl⟩ : b = b' ∧ y = y' := by simpa using hb
      rcases h.last with ⟨-, hnot⟩ | ⟨hne, -⟩
      · exact hnot x' (by simp) h'.rel
      · exact hne rfl
    · rw [← List.cons_append, ← List.append_assoc] at hb
      obtain rfl : z = y' := List.singleton_inj.mp (List.append_inj_right' hb rfl)
      have hle := (hpaired.concat_of_rel h'.rel).le_of_sublist h.all (by simp) (by simp)
      omega
  · -- this pair could be kept before the other
    rw [← hb] at hwithout
    have hle := hpaired.le_of_sublist hwithout (by simp) (by simp)
    have hall := h'.all
    rw [← hb, List.append_assoc, List.cons_append] at hall
    have := h.all.unique hall
    omega

/-- **Only one pair can be the last.** -/
theorem LastPair.unique (h : LastPair R k a x u b y v) (h' : LastPair R l a' x' u' b' y' v')
    (ha : a ++ x :: u = a' ++ x' :: u') (hb : b ++ y :: v = b' ++ y' :: v') :
    (a = a' ∧ x = x' ∧ u = u') ∧ b = b' ∧ y = y' ∧ v = v' := by
  obtain ⟨rfl, rfl, rfl⟩ : a = a' ∧ x = x' ∧ u = u' := by
    rcases places ha with hsame | ⟨m, ha', hu⟩ | ⟨m, ha', hu⟩
    · exact hsame
    · exact (h.not_before h' hb m ha' hu).elim
    · exact (h'.not_before h hb.symm m ha' hu).elim
  -- of those related to `x`, it is paired with the last
  have hlast : ∀ {k l : ℕ} {b v b' v' : List β} {y y' : β}, LastPair R k a x u b y v → LastPair R l a x u b' y' v' →
      ∀ m, v ≠ m ++ y' :: v' := by
    rintro k l b v b' v' y y' h h' m rfl
    rcases h.last with ⟨hv, -⟩ | ⟨-, -, hv⟩
    · simp at hv
    · exact hv y' (by simp) h'.rel
  refine ⟨⟨rfl, rfl, rfl⟩, ?_⟩
  rcases places hb with hsame | ⟨m, -, hv⟩ | ⟨m, -, hv⟩
  · exact hsame
  · exact (hlast h h' m hv).elim
  · exact (hlast h' h m hv).elim

/-- The last pair is kept. -/
theorem ReadBack.exists_of_lastPair {es : List (Edit α β)} (h : LastPair R k a x u b y v)
    (hes : ReadBack R es (a ++ x :: u) (b ++ y :: v)) :
    ∃ fs, es = fs ++ .keep x y :: gap u v ∧ ReadBack R fs a b := by
  rcases hes.exists_last with ⟨hnone, -⟩ | ⟨l, fs, a', x', u', b', y', v', ha, hb, rfl, hlast, hfs⟩
  · exact absurd (h.all.unique hnone) (Nat.succ_ne_zero k)
  · obtain ⟨⟨rfl, rfl, rfl⟩, rfl, rfl, rfl⟩ := h.unique hlast ha hb
    exact ⟨fs, rfl, hfs⟩

end

/-! ### A common prefix -/

/-- After a common prefix the last pair is the same. -/
theorem LastPair.append_left {c : List α} {c' : List β} (hc : List.Forall₂ R c c') {k : ℕ} {a u : List α} {x : α}
    {b v : List β} {y : β} (h : LastPair R k a x u b y v) : LastPair R (c.length + k) (c ++ a) x u (c' ++ b) y v where
  rel := h.rel
  before := .append_left hc h.before
  all := by
    rw [List.append_assoc, List.append_assoc, Nat.add_assoc]
    exact .append_left hc h.all
  last := by
    refine h.last.imp_right fun ⟨hne, hwithout, hv⟩ => ⟨hne, ?_, hv⟩
    rw [List.append_assoc]
    exact .append_left hc hwithout

variable (R) in
/-- What follows a common prefix that ends in `z` and `z'`, read back as if it were alone, does not go on to pair one
of them: the first gap left has no element of the second sequence related to `z`, or, if it has none of the second
sequence at all, none of the first related to `z'`. -/
inductive Clear (z : α) (z' : β) : List α → List β → Prop where
  /-- The first gap. -/
  | none {a : List α} {b : List β} : Longest R a b 0 → (b = [] → ∀ x ∈ a, ¬ R x z') → (b ≠ [] → ∀ y ∈ b, ¬ R z y) →
      Clear z z' a b
  /-- The last pair is kept. -/
  | pair {k : ℕ} {a u : List α} {x : α} {b v : List β} {y : β} : LastPair R k a x u b y v → Clear z z' a b →
      Clear z z' (a ++ x :: u) (b ++ y :: v)

theorem Clear.exists_last {z : α} {z' : β} {a : List α} {b : List β} (h : Clear R z z' a b) :
    (Longest R a b 0 ∧ (b = [] → ∀ x ∈ a, ¬ R x z') ∧ (b ≠ [] → ∀ y ∈ b, ¬ R z y)) ∨
      ∃ k a' x u b' y v, a = a' ++ x :: u ∧ b = b' ++ y :: v ∧ LastPair R k a' x u b' y v ∧ Clear R z z' a' b' := by
  cases h with
  | none hnone ha hb => exact .inl ⟨hnone, ha, hb⟩
  | pair hlast h => exact .inr ⟨_, _, _, _, _, _, _, rfl, rfl, hlast, h⟩

section

variable {c : List α} {c' : List β} {z : α} {z' : β} {a : List α} {b : List β}

/-- Where nothing else is in common, the ends of the prefix are the last pair. -/
theorem lastPair_prefix_iff (hc : List.Forall₂ R c c') (hz : R z z') (hnone : Longest R a b 0) :
    LastPair R c.length c z a c' z' b ↔ (b = [] → ∀ x ∈ a, ¬ R x z') ∧ (b ≠ [] → ∀ y ∈ b, ¬ R z y) := by
  constructor
  · intro h
    rcases h.last with ⟨hb, ha⟩ | ⟨hb, -, hb'⟩
    · exact ⟨fun _ => ha, fun hne => absurd hb hne⟩
    · exact ⟨fun hnil => absurd hnil hb, fun _ => hb'⟩
  · rintro ⟨ha, hb⟩
    have hbefore := Longest.of_forall₂ hc
    refine ⟨hz, hbefore, .append_left hc (hnone.cons_of_rel hz), ?_⟩
    by_cases hnil : b = []
    · exact .inl ⟨hnil, ha hnil⟩
    · obtain ⟨ps, hps, hlen⟩ := hbefore.1
      refine .inr ⟨hnil, ⟨⟨ps, hps.mono (.refl _) (List.sublist_append_left ..), hlen⟩, ?_⟩, hb hnil⟩
      rintro n ⟨qs, hqs, rfl⟩
      simpa using hqs.fst.length_le

/-- Where the prefix is kept and no pair after it, its ends are the last pair. -/
theorem ReadBack.lastPair_of_le_lead {es : List (Edit α β)} (hc : List.Forall₂ R c c') (hz : R z z')
    (hnone : Longest R a b 0) (hes : ReadBack R es (c ++ z :: a) (c' ++ z' :: b)) (hlead : c.length + 1 ≤ lead es) :
    LastPair R c.length c z a c' z' b := by
  have hall : Longest R (c ++ z :: a) (c' ++ z' :: b) (c.length + 1) := .append_left hc (hnone.cons_of_rel hz)
  rcases hes.exists_last with ⟨hnil, -⟩ | ⟨k, fs, a', x, u, b', y, v, ha, hb, rfl, hlast, hfs⟩
  · exact absurd (hall.unique hnil) (Nat.succ_ne_zero _)
  obtain rfl : c.length = k := Nat.succ.inj (hall.unique (ha ▸ hb ▸ hlast.all))
  obtain ⟨hturns, hlong⟩ := hfs.turns
  have hkept := hlong.unique hlast.before
  -- all before the last pair is kept
  have hlen : fs.length = c.length := by
    refine Nat.le_antisymm (Nat.le_of_not_lt fun hlt => ?_) (hkept ▸ List.length_filterMap_le ..)
    have := ((le_lead_append hlt _).mp hlead).trans (lead_le_kept fs)
    omega
  obtain ⟨hlena, hlenb⟩ := hlast.before.le_length
  have hsum := hturns.length_add_kept
  obtain ⟨rfl, hcons⟩ := List.append_inj ha (by omega)
  obtain ⟨rfl, hcons'⟩ := List.append_inj hb (by rw [← hc.length_eq]; omega)
  cases hcons
  cases hcons'
  exact hlast

/-- **A common prefix is kept if and only if what follows does not pair its end.** -/
theorem ReadBack.le_lead_iff {fs es : List (Edit α β)} (hc : List.Forall₂ R c c') (hz : R z z') (hfs : ReadBack R fs a b)
    (hes : ReadBack R es (c ++ z :: a) (c' ++ z' :: b)) : c.length + 1 ≤ lead es ↔ Clear R z z' a b := by
  induction hfs generalizing es with
  | @none a b hnone =>
    have hiff := lastPair_prefix_iff hc hz hnone
    constructor
    · intro hlead
      obtain ⟨ha, hb⟩ := hiff.mp (hes.lastPair_of_le_lead hc hz hnone hlead)
      exact .none hnone ha hb
    · intro hclear
      rcases hclear.exists_last with ⟨-, ha, hb⟩ | ⟨k, a', x, u, b', y, v, rfl, rfl, hlast, -⟩
      · obtain ⟨gs, rfl, hgs⟩ := hes.exists_of_lastPair (hiff.mpr ⟨ha, hb⟩)
        obtain ⟨hturns, hlong⟩ := hgs.turns
        have hkept := hlong.unique (Longest.of_forall₂ hc)
        have hsum := hturns.length_add_kept
        have hlen := hc.length_eq
        rw [lead_append_of_eq (lead_of_kept (by omega)), lead_cons_keep]
        omega
      · exact absurd (hlast.all.unique hnone) (Nat.succ_ne_zero k)
  | @pair k fs a u x b v y hlast _ ih =>
    have hc' : List.Forall₂ R (c ++ [z]) (c' ++ [z']) := List.rel_append hc (.cons hz .nil)
    have hlast' := hlast.append_left hc'
    rw [List.append_assoc, List.append_assoc] at hlast'
    have hes' : ReadBack R es ((c ++ z :: a) ++ x :: u) ((c' ++ z' :: b) ++ y :: v) := by simpa using hes
    obtain ⟨gs, rfl, hgs⟩ := hes'.exists_of_lastPair hlast'
    have hlen : c.length + 1 ≤ gs.length := by
      have hsum := hgs.turns.1.length_add_kept
      have hle := List.length_filterMap_le Edit.kept gs
      have hlong := hgs.turns.2.le_length.2
      simp only [List.length_append, List.length_cons] at hsum hlong
      omega
    rw [le_lead_append hlen, ih hgs]
    constructor
    · exact .pair hlast
    · intro hclear
      rcases hclear.exists_last with ⟨hnil, -⟩ | ⟨l, a', x', u', b', y', v', ha, hb, hlast'', hclear⟩
      · exact absurd (hlast.all.unique hnil) (Nat.succ_ne_zero k)
      · obtain ⟨⟨rfl, rfl, rfl⟩, rfl, rfl, rfl⟩ := hlast.unique hlast'' ha hb
        exact hclear

end

/-! ### Both ways -/

variable (R) in
/-- The pair of `x` and `y` is the last one kept of `a ++ x :: u` and `b ++ y :: v` and of the two exchanged. -/
structure LastPairBothWays (k : ℕ) (a : List α) (x : α) (u : List α) (b : List β) (y : β) (v : List β) : Prop where
  /-- They are related. -/
  rel : R x y
  /-- How many pairs are kept before. -/
  before : Longest R a b k
  /-- With this pair they are a longest common subsequence. -/
  all : Longest R (a ++ x :: u) (b ++ y :: v) (k + 1)
  /-- Nothing after `x` is related to `y`. -/
  notRelLeft : ∀ x' ∈ u, ¬ R x' y
  /-- Nothing after `y` is related to `x`. -/
  notRelRight : ∀ y' ∈ v, ¬ R x y'
  /-- If something comes after `y`, there is no common subsequence as long without `x`. -/
  withoutLeft : v ≠ [] → Longest R a (b ++ y :: v) k
  /-- If something comes after `x`, there is none without `y`. -/
  withoutRight : u ≠ [] → Longest R (a ++ x :: u) b k

variable (R) in
/-- Reading back takes no side: the last pair is the same both ways, and so on before it. -/
inductive Settled : List α → List β → Prop where
  /-- Nothing is in common. -/
  | none {a : List α} {b : List β} : Longest R a b 0 → Settled a b
  /-- The last pair is the same. -/
  | pair {k : ℕ} {a u : List α} {x : α} {b v : List β} {y : β} : LastPairBothWays R k a x u b y v → Settled a b →
      Settled (a ++ x :: u) (b ++ y :: v)

theorem longest_flip_iff {a : List α} {b : List β} {k : ℕ} : Longest (flip R) b a k ↔ Longest R a b k :=
  ⟨Longest.swap, Longest.swap⟩

theorem lastPairBothWays_iff {k : ℕ} {a u : List α} {x : α} {b v : List β} {y : β} :
    LastPairBothWays R k a x u b y v ↔ LastPair R k a x u b y v ∧ LastPair (flip R) k b y v a x u := by
  constructor
  · intro h
    refine ⟨⟨h.rel, h.before, h.all, ?_⟩, ⟨h.rel, h.before.swap, h.all.swap, ?_⟩⟩
    · by_cases hv : v = []
      · exact .inl ⟨hv, h.notRelLeft⟩
      · exact .inr ⟨hv, h.withoutLeft hv, h.notRelRight⟩
    · by_cases hu : u = []
      · exact .inl ⟨hu, h.notRelRight⟩
      · exact .inr ⟨hu, (h.withoutRight hu).swap, h.notRelLeft⟩
  · rintro ⟨h, h'⟩
    refine ⟨h.rel, h.before, h.all, ?_, ?_, fun hv => ?_, fun hu => ?_⟩
    · rcases h'.last with ⟨rfl, -⟩ | ⟨-, -, hu⟩
      · exact fun x' hx' => (by cases hx')
      · exact hu
    · rcases h.last with ⟨rfl, -⟩ | ⟨-, -, hv⟩
      · exact fun y' hy' => (by cases hy')
      · exact hv
    · exact (h.last.resolve_left fun h => hv h.1).2.1
    · exact longest_flip_iff.mp (h'.last.resolve_left fun h => hu h.1).2.1

theorem pairsFrom_gap (i j : ℕ) (u : List α) (v : List β) : pairsFrom i j (gap u v) = [] := by
  rw [← List.length_eq_zero_iff, length_pairsFrom, kept_gap, List.length_nil]

/-- The last pair's positions come last. -/
theorem pairsFrom_last {es : List (Edit α β)} {a : List α} {b : List β} (h : Turns R es a b) (x : α) (y : β) (u : List α)
    (v : List β) : pairsFrom 0 0 (es ++ .keep x y :: gap u v) = pairsFrom 0 0 es ++ [(a.length, b.length)] := by
  rw [pairsFrom_append h, pairsFrom, pairsFrom_gap, Nat.zero_add, Nat.zero_add]

/-- **The pairs read back are the same both ways if and only if reading back takes no side.** -/
theorem ReadBack.pairs_swap_iff {es : List (Edit α β)} {fs : List (Edit β α)} {a : List α} {b : List β}
    (h : ReadBack R es a b) (h' : ReadBack (flip R) fs b a) :
    pairsFrom 0 0 fs = (pairsFrom 0 0 es).map Prod.swap ↔ Settled R a b := by
  constructor
  · intro hpairs
    induction h generalizing fs with
    | none hnone => exact .none hnone
    | @pair k es a u x b v y hlast hes ih =>
      rw [pairsFrom_last hes.turns.1, List.map_append] at hpairs
      rcases h'.exists_last with ⟨hnone, -⟩ | ⟨l, gs, b', y', v', a', x', u', hb, ha, rfl, hlast', hgs⟩
      · exact absurd (hlast.all.unique (longest_flip_iff.mp hnone)) (Nat.succ_ne_zero k)
      rw [pairsFrom_last hgs.turns.1] at hpairs
      obtain ⟨hbefore, hlen⟩ := List.append_inj' hpairs rfl
      simp only [List.map_cons, List.map_nil, Prod.swap_prod_mk, List.cons.injEq, Prod.mk.injEq, and_true] at hlen
      obtain ⟨rfl, hcons⟩ := List.append_inj hb hlen.1.symm
      obtain ⟨rfl, hcons'⟩ := List.append_inj ha hlen.2.symm
      cases hcons
      cases hcons'
      obtain rfl : l = k := hlast'.before.unique hlast.before.swap
      exact .pair (lastPairBothWays_iff.mpr ⟨hlast, hlast'⟩) (ih hgs hbefore)
  · intro hsettled
    induction hsettled generalizing es fs with
    | none hnone =>
      have hes := hnone.unique h.turns.2
      have hfs := hnone.swap.unique h'.turns.2
      rw [← length_pairsFrom 0 0] at hes hfs
      rw [List.length_eq_zero_iff.mp hes.symm, List.length_eq_zero_iff.mp hfs.symm]
      rfl
    | pair hboth _ ih =>
      obtain ⟨hlast, hlast'⟩ := lastPairBothWays_iff.mp hboth
      obtain ⟨es, rfl, hes⟩ := h.exists_of_lastPair hlast
      obtain ⟨fs, rfl, hfs⟩ := h'.exists_of_lastPair hlast'
      rw [pairsFrom_last hes.turns.1, pairsFrom_last hfs.turns.1, List.map_append, ih hes hfs]
      rfl

end AcpCore.Alignment
