import Mathlib.Data.List.Basic

/-!
# RawDuck.Cuts

A small library about sequences that are cut into consecutive groups and read
group by group.  A group of several items is read by `together`; an item that is
the only one of its group is read by `alone`, unless the group has a bar.

* `CutsAgree` — whatever the cuts, they are all refused or read the same;
* `cutsAgree_iff` — when that is so, for a `together` that reads the parts of
  what it reads;
* `refused_iff` — when every cut is refused, for items of two kinds that are not
  read together.
-/

namespace Cuts

universe u v

/-- A piece of a sequence: an item, a bar, or a blank that changes nothing. -/
inductive Piece (α : Type u) where
  | item (a : α)
  | bar
  | blank

variable {α : Type u} {β : Type v}

/-- The item of a piece. -/
def Piece.item? : Piece α → Option α
  | .item a => some a
  | .bar | .blank => none

/-- A bar. -/
def Piece.isBar : Piece α → Bool
  | .bar => true
  | .item _ | .blank => false

/-- The items of a sequence. -/
def items (ps : List (Piece α)) : List α := ps.filterMap Piece.item?

/-- There is a bar. -/
def barred (ps : List (Piece α)) : Bool := ps.any Piece.isBar

@[simp] theorem items_append (ps qs : List (Piece α)) : items (ps ++ qs) = items ps ++ items qs :=
  List.filterMap_append

@[simp] theorem items_cons_item (a : α) (ps : List (Piece α)) :
    items (.item a :: ps) = a :: items ps := rfl

@[simp] theorem items_cons_bar (ps : List (Piece α)) : items (.bar :: ps) = items ps := rfl

@[simp] theorem items_cons_blank (ps : List (Piece α)) : items (.blank :: ps) = items ps := rfl

@[simp] theorem items_nil : items ([] : List (Piece α)) = [] := rfl

@[simp] theorem barred_append (ps qs : List (Piece α)) :
    barred (ps ++ qs) = (barred ps || barred qs) := List.any_append

@[simp] theorem barred_cons_item (a : α) (ps : List (Piece α)) :
    barred (.item a :: ps) = barred ps := rfl

@[simp] theorem barred_cons_bar (ps : List (Piece α)) : barred (.bar :: ps) = true := rfl

@[simp] theorem barred_cons_blank (ps : List (Piece α)) : barred (.blank :: ps) = barred ps := rfl

@[simp] theorem barred_nil : barred ([] : List (Piece α)) = false := rfl

/-- Where an item stands among the items, a piece stands among the pieces. -/
theorem exists_piece {ps : List (Piece α)} {as as' : List α} {a : α}
    (h : items ps = as ++ a :: as') :
    ∃ pre post, ps = pre ++ .item a :: post ∧ items pre = as ∧ items post = as' := by
  induction ps generalizing as with
  | nil => simp at h
  | cons p ps ih =>
      cases p with
      | item b =>
          rw [items_cons_item] at h
          cases as with
          | nil =>
              obtain ⟨rfl, rfl⟩ := List.cons.inj h
              exact ⟨[], ps, rfl, rfl, rfl⟩
          | cons c as =>
              rw [List.cons_append, List.cons.injEq] at h
              obtain ⟨rfl, hrest⟩ := h
              obtain ⟨pre, post, rfl, rfl, rfl⟩ := ih hrest
              exact ⟨.item b :: pre, post, rfl, rfl, rfl⟩
      | bar =>
          obtain ⟨pre, post, rfl, rfl, rfl⟩ := ih h
          exact ⟨.bar :: pre, post, rfl, rfl, rfl⟩
      | blank =>
          obtain ⟨pre, post, rfl, rfl, rfl⟩ := ih h
          exact ⟨.blank :: pre, post, rfl, rfl, rfl⟩

/-! ## reading cuts -/

variable (alone : α → Option (List β)) (together : List α → Option (List β))

/-- The reading of a group. -/
def readGroup (g : List (Piece α)) : Option (List β) :=
  match items g with
  | [a] => if barred g then together [a] else alone a
  | as => together as

/-- The reading of a cut: its groups one after the other. -/
def readCut : List (List (Piece α)) → Option (List β)
  | [] => some []
  | g :: gs => do return (← readGroup alone together g) ++ (← readCut gs)

/-- All cuts of the sequence are refused, or all read the same. -/
def CutsAgree (ps : List (Piece α)) : Prop :=
  ∀ gs gs', gs.flatten = ps → gs'.flatten = ps →
    readCut alone together gs = readCut alone together gs'

/-- The parts of what is read are read, and make up the whole. -/
structure Hereditary : Prop where
  nil : together [] = some []
  append : ∀ as as' bs, together (as ++ as') = some bs →
    ∃ cs cs', together as = some cs ∧ together as' = some cs' ∧ bs = cs ++ cs'

/-- Why all cuts agree: there is one item at most and no bar; or every cut is
refused; or all items are read together, and each alone gives what it gives
among the others (of two items without a bar: in sequence). -/
def Settled (ps : List (Piece α)) : Prop :=
  ((items ps).length ≤ 1 ∧ barred ps = false) ∨
  (∀ gs, gs.flatten = ps → readCut alone together gs = none) ∨
  ∃ bs, together (items ps) = some bs ∧
    ((∀ a ∈ items ps, alone a = together [a]) ∨
      barred ps = false ∧ ∃ a b, items ps = [a, b] ∧
        readCut alone together [[.item a], [.item b]] = some bs)

variable {alone} {together}

theorem readCut_cons_eq_some {g : List (Piece α)} {gs : List (List (Piece α))} {bs : List β} :
    readCut alone together (g :: gs) = some bs ↔ ∃ cs cs', readGroup alone together g = some cs ∧
      readCut alone together gs = some cs' ∧ bs = cs ++ cs' := by
  rw [readCut]
  simp only [Option.bind_eq_bind, Option.bind_eq_some_iff, Option.pure_def, Option.some.injEq]
  constructor
  · rintro ⟨cs, hcs, cs', hcs', rfl⟩
    exact ⟨cs, cs', hcs, hcs', rfl⟩
  · rintro ⟨cs, cs', hcs, hcs', rfl⟩
    exact ⟨cs, hcs, cs', hcs', rfl⟩

theorem readCut_cons_of_some {g : List (Piece α)} {gs : List (List (Piece α))} {cs : List β}
    (h : readGroup alone together g = some cs) :
    readCut alone together (g :: gs) = (readCut alone together gs).map (cs ++ ·) := by
  rw [readCut, h]
  cases readCut alone together gs with
  | none => rfl
  | some cs' => rfl

/-- A group whose single item is the same alone as together is read together. -/
theorem readGroup_of_good {g : List (Piece α)}
    (h : (items g).length = 1 → barred g = false → ∀ a ∈ items g, alone a = together [a]) :
    readGroup alone together g = together (items g) := by
  rw [readGroup]
  split
  · next a hitems =>
    split
    · rw [hitems]
    · next hbar =>
      rw [hitems]
      exact h (by rw [hitems]; rfl) (by simpa using hbar) a
        (by rw [hitems]; exact List.mem_cons_self)
  · rfl

theorem readGroup_single {g : List (Piece α)} {a : α} (hitems : items g = [a])
    (hbar : barred g = false) : readGroup alone together g = alone a := by
  rw [readGroup]
  simp only [hitems, hbar, Bool.false_eq_true, if_false]

/-! ## settled sequences agree -/

theorem readGroup_empty (hher : Hereditary together) {g : List (Piece α)} (hitems : items g = []) :
    readGroup alone together g = some [] := by
  rw [readGroup]
  simp only [hitems]
  exact hher.nil

/-- Items that are the same alone as together are read together in every cut. -/
theorem readCut_of_good (hher : Hereditary together) {gs : List (List (Piece α))} {bs : List β}
    (htogether : together (items gs.flatten) = some bs)
    (hgood : ∀ a ∈ items gs.flatten, alone a = together [a]) :
    readCut alone together gs = some bs := by
  induction gs generalizing bs with
  | nil =>
      rw [List.flatten_nil, items_nil, hher.nil] at htogether
      exact htogether
  | cons g gs ih =>
      rw [List.flatten_cons, items_append] at htogether hgood
      obtain ⟨cs, cs', hcs, hcs', rfl⟩ := hher.append _ _ _ htogether
      have hgroup : readGroup alone together g = some cs := by
        rw [readGroup_of_good fun _ _ a ha => hgood a (List.mem_append_left _ ha), hcs]
      have hrest := ih hcs' fun a ha => hgood a (List.mem_append_right _ ha)
      exact readCut_cons_eq_some.mpr ⟨cs, cs', hgroup, hrest, rfl⟩

/-- A cut without items is read as nothing. -/
theorem readCut_empty (hher : Hereditary together) {gs : List (List (Piece α))}
    (hitems : items gs.flatten = []) : readCut alone together gs = some [] := by
  induction gs with
  | nil => rfl
  | cons g gs ih =>
      rw [List.flatten_cons, items_append, List.append_eq_nil_iff] at hitems
      rw [readCut_cons_of_some (readGroup_empty hher hitems.1), ih hitems.2]
      rfl

/-- The single item of a cut without a bar is read alone. -/
theorem readCut_one (hher : Hereditary together) {gs : List (List (Piece α))} {a : α}
    (hitems : items gs.flatten = [a]) (hbar : barred gs.flatten = false) :
    readCut alone together gs = alone a := by
  induction gs with
  | nil => simp at hitems
  | cons g gs ih =>
      rw [List.flatten_cons, items_append, List.append_eq_singleton_iff] at hitems
      rw [List.flatten_cons, barred_append, Bool.or_eq_false_iff] at hbar
      obtain ⟨hg, hgs⟩ | ⟨hg, hgs⟩ := hitems
      · rw [readCut_cons_of_some (readGroup_empty hher hg), ih hgs hbar.2]
        cases alone a with
        | none => rfl
        | some cs => rfl
      · rw [readCut, readGroup_single hg hbar.1, readCut_empty hher hgs]
        cases alone a with
        | none => rfl
        | some cs => exact congrArg some (List.append_nil cs)

/-- The two items of a cut without a bar are read together or one by one. -/
theorem readCut_two (hher : Hereditary together) {gs : List (List (Piece α))} {a b : α}
    {bs : List β} (hitems : items gs.flatten = [a, b]) (hbar : barred gs.flatten = false)
    (htogether : together [a, b] = some bs)
    (halone : readCut alone together [[.item a], [.item b]] = some bs) :
    readCut alone together gs = some bs := by
  induction gs with
  | nil => simp at hitems
  | cons g gs ih =>
      rw [List.flatten_cons, items_append] at hitems
      rw [List.flatten_cons, barred_append, Bool.or_eq_false_iff] at hbar
      match hg : items g with
      | [] =>
          rw [hg, List.nil_append] at hitems
          rw [readCut_cons_of_some (readGroup_empty hher hg), ih hitems hbar.2]
          rfl
      | [c] =>
          rw [hg, List.singleton_append] at hitems
          obtain ⟨rfl, hgs⟩ := List.cons.inj hitems
          obtain ⟨cs, cs', hcs, hcs', rfl⟩ := readCut_cons_eq_some.mp halone
          rw [readGroup_single (a := c) rfl rfl] at hcs
          rw [readCut_one (a := b) hher rfl rfl] at hcs'
          have hgroup : readGroup alone together g = some cs := by
            rw [readGroup_single hg hbar.1, hcs]
          have hrest : readCut alone together gs = some cs' := by
            rw [readCut_one hher hgs hbar.2, hcs']
          exact readCut_cons_eq_some.mpr ⟨cs, cs', hgroup, hrest, rfl⟩
      | c :: d :: as =>
          rw [hg, List.cons_append, List.cons_append, List.cons.injEq, List.cons.injEq,
            List.append_eq_nil_iff] at hitems
          obtain ⟨rfl, rfl, rfl, hgs⟩ := hitems
          have hgroup : readGroup alone together g = some bs := by
            rw [readGroup, hg]
            exact htogether
          rw [readCut_cons_of_some hgroup, readCut_empty hher hgs]
          exact congrArg some (List.append_nil bs)

/-- A settled sequence is read the same whatever its cuts. -/
theorem cutsAgree_of_settled (hher : Hereditary together) {ps : List (Piece α)}
    (h : Settled alone together ps) : CutsAgree alone together ps := by
  intro gs gs' hgs hgs'
  rcases h with ⟨hlength, hbar⟩ | hnone | ⟨bs, htogether, hgood | ⟨hbar, a, b, hitems, halone⟩⟩
  · match hitems : items ps with
    | [] => rw [readCut_empty hher (hgs ▸ hitems), readCut_empty hher (hgs' ▸ hitems)]
    | [a] => rw [readCut_one hher (hgs ▸ hitems) (hgs ▸ hbar),
        readCut_one hher (hgs' ▸ hitems) (hgs' ▸ hbar)]
    | a :: b :: as => simp [hitems] at hlength
  · rw [hnone gs hgs, hnone gs' hgs']
  · rw [readCut_of_good hher (hgs ▸ htogether) (hgs ▸ hgood),
      readCut_of_good hher (hgs' ▸ htogether) (hgs' ▸ hgood)]
  · rw [hitems] at htogether
    rw [readCut_two hher (hgs ▸ hitems) (hgs ▸ hbar) htogether halone,
      readCut_two hher (hgs' ▸ hitems) (hgs' ▸ hbar) htogether halone]

/-! ## sequences that agree are settled -/

/-- An item between two groups that are read together is the same alone as
together: the cut around it and the whole sequence read the same. -/
theorem alone_eq_of_between (hher : Hereditary together) {pre post : List (Piece α)} {a : α}
    {bs : List β} (htogether : together (items (pre ++ .item a :: post)) = some bs)
    (hcut : readCut alone together [pre, [.item a], post] = some bs)
    (hpre : readGroup alone together pre = together (items pre))
    (hpost : readGroup alone together post = together (items post)) :
    alone a = together [a] := by
  rw [items_append, items_cons_item, ← List.singleton_append] at htogether
  obtain ⟨cs, rest, hcs, hrest, hbs⟩ := hher.append _ _ _ htogether
  obtain ⟨ds, es, hds, hes, rfl⟩ := hher.append _ _ _ hrest
  obtain ⟨cs', rest', hcs', hrest', hbs'⟩ := readCut_cons_eq_some.mp hcut
  obtain ⟨ds', last, hds', hlast, rfl⟩ := readCut_cons_eq_some.mp hrest'
  obtain ⟨es', fs, hes', hfs, rfl⟩ := readCut_cons_eq_some.mp hlast
  obtain rfl := Option.some.inj (hfs : some [] = some fs)
  obtain rfl : cs' = cs := Option.some.inj (by rw [← hcs', hpre, hcs])
  obtain rfl : es' = es := Option.some.inj (by rw [← hes', hpost, hes])
  rw [readGroup_single rfl rfl] at hds'
  have hsame : ds' = ds := by
    rw [hbs', List.append_nil] at hbs
    exact List.append_cancel_right (List.append_cancel_left hbs)
  rw [hds', hds, hsame]

theorem readGroup_of_length {g : List (Piece α)} (h : (items g).length ≠ 1) :
    readGroup alone together g = together (items g) :=
  readGroup_of_good fun h' => absurd h' h

theorem readGroup_of_barred {g : List (Piece α)} (h : barred g = true) :
    readGroup alone together g = together (items g) :=
  readGroup_of_good fun _ h' => absurd h' (by simp [h])

/-- Items around a single one are read together, or it is good itself. -/
theorem readGroup_of_items {g : List (Piece α)} {a : α} (hitems : items g = [a])
    (h : alone a = together [a]) : readGroup alone together g = together (items g) :=
  readGroup_of_good fun _ _ b hb => by
    rw [hitems, List.mem_singleton] at hb
    rw [hb, h]

section Agree

variable {ps : List (Piece α)} {bs : List β}

/-- Of two items under a bar each is good: the bar goes with the other one. -/
theorem good_of_two (hher : Hereditary together)
    (hread : ∀ gs, gs.flatten = ps → readCut alone together gs = some bs)
    (htogether : together (items ps) = some bs) {a b : α} (hitems : items ps = [a, b])
    (hbar : barred ps = true) : alone a = together [a] ∧ alone b = together [b] := by
  obtain ⟨pre, post', rfl, hpre, hpost'⟩ :=
    exists_piece (show items ps = [] ++ a :: [b] from hitems)
  obtain ⟨mid, post, rfl, hmid, hpost⟩ :=
    exists_piece (show items post' = [] ++ b :: [] from hpost')
  have hfirst : pre ++ .item a :: (mid ++ .item b :: post) =
      (pre ++ .item a :: mid) ++ .item b :: post := by simp
  have hcutFirst := hread [pre, [.item a], mid ++ .item b :: post] (by simp)
  have hcutLast := hread [pre ++ .item a :: mid, [.item b], post] (by simp)
  have hpreGroup : readGroup alone together pre = together (items pre) :=
    readGroup_of_length (by simp [hpre])
  have hpostGroup : readGroup alone together post = together (items post) :=
    readGroup_of_length (by simp [hpost])
  have htogether' := htogether
  rw [hfirst] at htogether'
  by_cases hleft : barred (pre ++ .item a :: mid) = true
  · have hb := alone_eq_of_between hher htogether' hcutLast (readGroup_of_barred hleft) hpostGroup
    have ha := alone_eq_of_between hher htogether hcutFirst hpreGroup (readGroup_of_items hpost' hb)
    exact ⟨ha, hb⟩
  · have hright : barred (mid ++ .item b :: post) = true := by
      simp only [barred_append, barred_cons_item, Bool.or_eq_true, not_or,
        Bool.not_eq_true] at hleft hbar ⊢
      simpa [hleft] using hbar
    have ha := alone_eq_of_between hher htogether hcutFirst hpreGroup (readGroup_of_barred hright)
    have hitemsLeft : items (pre ++ .item a :: mid) = [a] := by simp [hpre, hmid]
    have hb := alone_eq_of_between hher htogether' hcutLast (readGroup_of_items hitemsLeft ha)
      hpostGroup
    exact ⟨ha, hb⟩

/-- An item is good when a single item before it and a single item after it are. -/
theorem good_of_sides (hher : Hereditary together)
    (hread : ∀ gs, gs.flatten = ps → readCut alone together gs = some bs)
    (htogether : together (items ps) = some bs) {as as' : List α} {a : α}
    (hitems : items ps = as ++ a :: as') (hbefore : ∀ b, as = [b] → alone b = together [b])
    (hafter : ∀ b, as' = [b] → alone b = together [b]) : alone a = together [a] := by
  obtain ⟨pre, post, rfl, hpre, hpost⟩ := exists_piece hitems
  have hside : ∀ {g : List (Piece α)}, (∀ b, items g = [b] → alone b = together [b]) →
      readGroup alone together g = together (items g) := by
    intro g hg
    match hitems : items g with
    | [b] => rw [readGroup_of_items hitems (hg b hitems), hitems]
    | [] => rw [readGroup_of_length (by simp [hitems]), hitems]
    | b :: c :: cs => rw [readGroup_of_length (by simp [hitems]), hitems]
  exact alone_eq_of_between hher htogether (hread _ (by simp)) (hside (hpre ▸ hbefore))
    (hside (hpost ▸ hafter))

/-- Of three items and more each is good: first the two ends, then the others. -/
theorem good_of_three (hher : Hereditary together)
    (hread : ∀ gs, gs.flatten = ps → readCut alone together gs = some bs)
    (htogether : together (items ps) = some bs) (hlength : 3 ≤ (items ps).length) {a : α}
    (ha : a ∈ items ps) : alone a = together [a] := by
  have hfirst : ∀ b as, items ps = b :: as → alone b = together [b] := fun b as hitems =>
    good_of_sides hher hread htogether (show items ps = [] ++ b :: as from hitems)
      (fun c h => (nomatch h)) fun c h => by
      rw [hitems, h] at hlength
      simp at hlength
  have hlast : ∀ b as, items ps = as ++ [b] → alone b = together [b] := fun b as hitems =>
    good_of_sides hher hread htogether hitems
      (fun c h => by
        rw [hitems, h] at hlength
        simp at hlength)
      (fun c h => (nomatch h))
  obtain ⟨as, as', hitems⟩ := List.append_of_mem ha
  refine good_of_sides hher hread htogether hitems ?_ ?_
  · rintro b rfl
    exact hfirst b _ hitems
  · rintro b rfl
    exact hlast b (as ++ [a]) (by rw [hitems]; simp)

/-- When all cuts read the same, the sequence is settled. -/
theorem settled_of_read (hher : Hereditary together)
    (hread : ∀ gs, gs.flatten = ps → readCut alone together gs = some bs) :
    Settled alone together ps := by
  by_cases hsmall : (items ps).length ≤ 1 ∧ barred ps = false
  · exact .inl hsmall
  · have hwhole : readGroup alone together ps = together (items ps) :=
      readGroup_of_good fun hone hbar => absurd ⟨Nat.le_of_eq hone, hbar⟩ hsmall
    have htogether : together (items ps) = some bs := by
      obtain ⟨cs, cs', hcs, hcs', rfl⟩ := readCut_cons_eq_some.mp (hread [ps] (by simp))
      obtain rfl := Option.some.inj (hcs' : some [] = some cs')
      rw [← hwhole, hcs, List.append_nil]
    refine .inr (.inr ⟨bs, htogether, ?_⟩)
    match hitems : items ps with
    | [] => exact .inl fun a ha => (nomatch ha)
    | [a] =>
        have hgood := good_of_sides hher hread htogether
          (show items ps = [] ++ a :: [] from hitems)
          (fun b h => (nomatch h)) (fun b h => (nomatch h))
        exact .inl fun b hb => by rw [List.mem_singleton.mp hb, hgood]
    | [a, b] =>
        cases hbar : barred ps with
        | true =>
            obtain ⟨ha, hb⟩ := good_of_two hher hread htogether hitems hbar
            refine .inl fun c hc => ?_
            rcases List.mem_cons.mp hc with rfl | hc
            · exact ha
            · rw [List.mem_singleton.mp hc, hb]
        | false =>
            obtain ⟨pre, post, rfl, hpre, hpost⟩ :=
              exists_piece (show items ps = [] ++ a :: [b] from hitems)
            have hcut := hread [pre ++ [.item a], post] (by simp)
            rw [barred_append, barred_cons_item, Bool.or_eq_false_iff] at hbar
            refine .inr ⟨rfl, a, b, rfl, ?_⟩
            obtain ⟨cs, cs', hcs, hcs', rfl⟩ := readCut_cons_eq_some.mp hcut
            rw [readGroup_single (a := a) (by simp [hpre]) (by simp [hbar.1])] at hcs
            rw [readCut_one (a := b) hher (by simp [hpost]) (by simp [hbar.2])] at hcs'
            refine readCut_cons_eq_some.mpr ⟨cs, cs', ?_, ?_, rfl⟩
            · rw [readGroup_single rfl rfl, hcs]
            · rw [readCut_one hher rfl rfl, hcs']
    | a :: b :: c :: as =>
        refine .inl fun d hd => good_of_three hher hread htogether ?_ (hitems ▸ hd)
        rw [hitems]
        simp

end Agree

/-! ## sequences every cut of which is refused -/

/-- Items of two kinds are not read together, a marked one is the same alone as
together, and those that are not marked are read together. -/
structure Parted (alone : α → Option (List β)) (together : List α → Option (List β))
    (kind : α → Bool) : Prop where
  apart : ∀ as bs, together as = some bs → ∀ a ∈ as, ∀ b ∈ as, kind a = kind b
  marked : ∀ a, kind a = true → alone a = together [a]
  joined : ∀ as, (∀ a ∈ as, kind a = false) → ∃ bs, together as = some bs

/-- A marked item. -/
def Piece.isMark (kind : α → Bool) : Piece α → Bool
  | .item a => kind a
  | .bar | .blank => false

/-- The only item between two marked ones, or an end, and no bar there. -/
def Lonely (kind : α → Bool) (ps : List (Piece α)) (a : α) : Prop :=
  ∃ pre seg post, ps = pre ++ seg ++ post ∧ items seg = [a] ∧ barred seg = false ∧
    (∀ p ∈ pre.getLast?, p.isMark kind = true) ∧ ∀ p ∈ post.head?, p.isMark kind = true

/-- What no cut can help: a marked item that is refused, or a lonely one that is
refused alone. -/
def Refusing (alone : α → Option (List β)) (kind : α → Bool) (ps : List (Piece α)) : Prop :=
  ∃ a, alone a = none ∧
    ((a ∈ items ps ∧ kind a = true) ∨ (kind a = false ∧ Lonely kind ps a))

section Refused

variable {kind : α → Bool}

/-- Where a piece stands in the flattened groups, it stands in one of them. -/
theorem exists_group {gs : List (List (Piece α))} {ls rs : List (Piece α)} {p : Piece α}
    (h : gs.flatten = ls ++ p :: rs) : ∃ gs₁ g₁ g₂ gs₂, gs = gs₁ ++ (g₁ ++ p :: g₂) :: gs₂ ∧
      ls = gs₁.flatten ++ g₁ ∧ rs = g₂ ++ gs₂.flatten := by
  rw [List.flatten_eq_append_iff] at h
  obtain ⟨gs₁, gs', rfl, rfl, hgs'⟩ | ⟨gs₁, g₁, c, g₂, gs₂, rfl, rfl, hcons⟩ := h
  · rw [eq_comm, List.flatten_eq_cons_iff] at hgs'
    obtain ⟨empties, g₂, gs₂, rfl, hempties, rfl⟩ := hgs'
    refine ⟨gs₁ ++ empties, [], g₂, gs₂, by simp, ?_, rfl⟩
    simp [List.flatten_eq_nil_iff.mpr hempties]
  · obtain ⟨rfl, rfl⟩ := List.cons.inj hcons
    exact ⟨gs₁, g₁, g₂, gs₂, rfl, rfl, rfl⟩

/-- The groups of a cut that is read are read. -/
theorem readGroup_of_readCut {gs₁ gs₂ : List (List (Piece α))} {g : List (Piece α)} {bs : List β}
    (h : readCut alone together (gs₁ ++ g :: gs₂) = some bs) :
    ∃ cs, readGroup alone together g = some cs := by
  induction gs₁ generalizing bs with
  | nil =>
      obtain ⟨cs, cs', hcs, -, -⟩ := readCut_cons_eq_some.mp h
      exact ⟨cs, hcs⟩
  | cons g' gs₁ ih =>
      obtain ⟨cs, cs', -, hcs', -⟩ := readCut_cons_eq_some.mp h
      exact ih hcs'

/-- What is read together is read item by item. -/
theorem Hereditary.single (hher : Hereditary together) {as : List α} {bs : List β} {a : α}
    (h : together as = some bs) (ha : a ∈ as) : ∃ cs, together [a] = some cs := by
  obtain ⟨as₁, as₂, rfl⟩ := List.append_of_mem ha
  obtain ⟨-, rest, -, hrest, -⟩ := hher.append _ _ _ h
  rw [← List.singleton_append] at hrest
  obtain ⟨cs, -, hcs, -, -⟩ := hher.append _ _ _ hrest
  exact ⟨cs, hcs⟩

/-- A marked item that is refused spoils its group. -/
theorem readGroup_of_marked (hher : Hereditary together) (hparted : Parted alone together kind)
    {g : List (Piece α)} {a : α} (ha : a ∈ items g) (hkind : kind a = true)
    (halone : alone a = none) : readGroup alone together g = none := by
  have htogether : together [a] = none := by rw [← hparted.marked a hkind, halone]
  have hgroup : readGroup alone together g = together (items g) := by
    refine readGroup_of_good fun hone _ b hb => ?_
    obtain ⟨c, hc⟩ := List.length_eq_one_iff.mp hone
    rw [hc, List.mem_singleton] at ha hb
    rw [hb, ← ha, halone, htogether]
  rw [hgroup]
  by_contra hsome
  obtain ⟨bs, hbs⟩ := Option.ne_none_iff_exists'.mp hsome
  obtain ⟨cs, hcs⟩ := hher.single hbs ha
  rw [htogether] at hcs
  exact nomatch hcs

/-- An item and a marked one spoil their group. -/
theorem readGroup_of_mixed (hparted : Parted alone together kind) {g : List (Piece α)} {a b : α}
    (ha : a ∈ items g) (hb : b ∈ items g) (hkind : kind a ≠ kind b) :
    readGroup alone together g = none := by
  have hlength : (items g).length ≠ 1 := by
    intro hone
    obtain ⟨c, hc⟩ := List.length_eq_one_iff.mp hone
    rw [hc, List.mem_singleton] at ha hb
    exact hkind (by rw [ha, hb])
  rw [readGroup_of_length hlength]
  by_contra hsome
  obtain ⟨bs, hbs⟩ := Option.ne_none_iff_exists'.mp hsome
  exact hkind (hparted.apart _ _ hbs a ha b hb)

theorem mem_items {ps : List (Piece α)} {a : α} : a ∈ items ps ↔ .item a ∈ ps := by
  rw [items, List.mem_filterMap]
  constructor
  · rintro ⟨p, hp, h⟩
    cases p with
    | item b => rwa [Option.some.inj h] at hp
    | bar => exact nomatch h
    | blank => exact nomatch h
  · exact fun h => ⟨_, h, rfl⟩

/-- A piece after which a marked one comes, or the end: what goes on from it
either stays before the mark or has it. -/
theorem reaches_mark {ls rs seg post : List (Piece α)} (h : ls ++ rs = seg ++ post)
    (hpost : ∀ p ∈ post.head?, p.isMark kind = true) :
    (∃ t, seg = ls ++ t) ∨ ∃ b, b ∈ items ls ∧ kind b = true := by
  rw [List.append_eq_append_iff] at h
  obtain ⟨t, rfl, -⟩ | ⟨t, rfl, rfl⟩ := h
  · exact .inl ⟨t, rfl⟩
  · cases t with
    | nil => exact .inl ⟨[], by simp⟩
    | cons p t =>
        have hmark := hpost p rfl
        cases p with
        | item b => exact .inr ⟨b, mem_items.mpr (by simp), hmark⟩
        | bar => exact nomatch hmark
        | blank => exact nomatch hmark

/-- The same before a piece. -/
theorem reaches_mark_back {ls rs seg pre : List (Piece α)} (h : ls ++ rs = pre ++ seg)
    (hpre : ∀ p ∈ pre.getLast?, p.isMark kind = true) :
    (∃ t, seg = t ++ rs) ∨ ∃ b, b ∈ items rs ∧ kind b = true := by
  have hreverse : rs.reverse ++ ls.reverse = seg.reverse ++ pre.reverse := by
    rw [← List.reverse_append, ← List.reverse_append, h]
  have hhead : ∀ p ∈ pre.reverse.head?, p.isMark kind = true := by
    rwa [List.head?_reverse]
  obtain ⟨t, ht⟩ | ⟨b, hb, hkind⟩ := reaches_mark hreverse hhead
  · exact .inl ⟨t.reverse, by rw [← List.reverse_reverse seg, ht]; simp⟩
  · exact .inr ⟨b, mem_items.mpr (by simpa using mem_items.mp hb), hkind⟩

/-- A lonely item that is refused alone spoils its group. -/
theorem readCut_of_lonely (hparted : Parted alone together kind) {ps : List (Piece α)} {a : α}
    (hkind : kind a = false) (hlonely : Lonely kind ps a) (halone : alone a = none)
    {gs : List (List (Piece α))} (hgs : gs.flatten = ps) : readCut alone together gs = none := by
  obtain ⟨pre, seg, post, rfl, hitems, hbar, hpre, hpost⟩ := hlonely
  obtain ⟨seg₁, seg₂, rfl, hseg₁, hseg₂⟩ :=
    exists_piece (show items seg = [] ++ a :: [] from hitems)
  obtain ⟨gs₁, g₁, g₂, gs₂, rfl, hbefore, hafter⟩ :=
    exists_group (show gs.flatten = (pre ++ seg₁) ++ .item a :: (seg₂ ++ post) by simp [hgs])
  by_contra hsome
  obtain ⟨bs, hbs⟩ := Option.ne_none_iff_exists'.mp hsome
  obtain ⟨cs, hcs⟩ := readGroup_of_readCut hbs
  have ha : a ∈ items (g₁ ++ .item a :: g₂) := mem_items.mpr (by simp)
  have hnone : readGroup alone together (g₁ ++ .item a :: g₂) = none := by
    obtain ⟨t₂, rfl⟩ | ⟨b, hb, hmark⟩ := reaches_mark hafter.symm hpost
    · obtain ⟨t₁, rfl⟩ | ⟨b, hb, hmark⟩ := reaches_mark_back hbefore.symm hpre
      · -- the group lies inside the segment: the item is alone in it
        simp only [items_append, List.append_eq_nil_iff] at hseg₁ hseg₂
        simp only [barred_append, barred_cons_item, Bool.or_eq_false_iff] at hbar
        rw [readGroup_single (a := a) (by simp [hseg₁.2, hseg₂.1])
          (by simp [hbar.1.2, hbar.2.1]), halone]
      · exact readGroup_of_mixed (b := b) hparted ha (by simp [hb]) (by simp [hkind, hmark])
    · exact readGroup_of_mixed (b := b) hparted ha (by simp [hb]) (by simp [hkind, hmark])
  rw [hnone] at hcs
  exact nomatch hcs

/-- A segment without marked items that is refused has one lonely item. -/
theorem lonely_of_readGroup (hparted : Parted alone together kind) {seg : List (Piece α)}
    (hseg : ∀ a ∈ items seg, kind a = false) (h : readGroup alone together seg = none) :
    ∃ a, items seg = [a] ∧ barred seg = false ∧ alone a = none := by
  by_cases hsmall : (items seg).length = 1 ∧ barred seg = false
  · obtain ⟨a, ha⟩ := List.length_eq_one_iff.mp hsmall.1
    rw [readGroup_single ha hsmall.2] at h
    exact ⟨a, ha, hsmall.2, h⟩
  · obtain ⟨bs, hbs⟩ := hparted.joined _ hseg
    rw [readGroup_of_good fun hone hbar => absurd ⟨hone, hbar⟩ hsmall, hbs] at h
    exact nomatch h

/-- What refuses the rest after a marked item refuses the whole. -/
theorem Refusing.of_rest {seg ps : List (Piece α)} {a : α} (hkind : kind a = true)
    (h : Refusing alone kind ps) : Refusing alone kind (seg ++ .item a :: ps) := by
  obtain ⟨b, hb, ⟨hmem, hmark⟩ | ⟨hmark, pre, seg', post, rfl, hitems, hbar, hpre, hpost⟩⟩ := h
  · exact ⟨b, hb, .inl ⟨by simp [hmem], hmark⟩⟩
  · refine ⟨b, hb, .inr ⟨hmark, seg ++ .item a :: pre, seg', post, by simp, hitems, hbar,
      ?_, hpost⟩⟩
    intro p hp
    rw [List.getLast?_append, List.getLast?_cons] at hp
    cases hlast : pre.getLast? with
    | none =>
        obtain rfl : .item a = p := by simpa [hlast] using hp
        exact hkind
    | some q =>
        obtain rfl : q = p := by simpa [hlast] using hp
        exact hpre q hlast

/-- The piece before a marked item is read, unless no cut is. -/
theorem readGroup_of_not_refusing (hparted : Parted alone together kind)
    {ps seg : List (Piece α)} (hseg : ∀ a ∈ items seg, kind a = false)
    (h : ¬ Refusing alone kind (seg ++ ps)) (hhead : ∀ p ∈ ps.head?, p.isMark kind = true) :
    ∃ cs, readGroup alone together seg = some cs := by
  rw [← Option.ne_none_iff_exists']
  intro hnone
  obtain ⟨a, hitems, hbar, halone⟩ := lonely_of_readGroup hparted hseg hnone
  exact h ⟨a, halone, .inr ⟨hseg a (by simp [hitems]),
    [], seg, ps, rfl, hitems, hbar, fun p hp => (nomatch hp), hhead⟩⟩

/-- The cut around each marked item is read, unless no cut is. -/
theorem exists_readCut (hparted : Parted alone together kind) {ps seg : List (Piece α)}
    (hseg : ∀ a ∈ items seg, kind a = false) (h : ¬ Refusing alone kind (seg ++ ps)) :
    ∃ gs bs, gs.flatten = seg ++ ps ∧ readCut alone together gs = some bs := by
  induction ps generalizing seg with
  | nil =>
      obtain ⟨cs, hcs⟩ := readGroup_of_not_refusing hparted hseg h fun p hp => (nomatch hp)
      exact ⟨[seg], cs ++ [], by simp, readCut_cons_eq_some.mpr ⟨cs, [], hcs, rfl, rfl⟩⟩
  | cons p ps ih =>
      cases hmark : p.isMark kind with
      | false =>
          have hseg' : ∀ a ∈ items (seg ++ [p]), kind a = false := by
            intro a ha
            rcases List.mem_append.mp (mem_items.mp ha) with ha | ha
            · exact hseg a (mem_items.mpr ha)
            · rw [← List.mem_singleton.mp ha] at hmark
              exact hmark
          obtain ⟨gs, bs, hgs, hread⟩ := ih hseg' (by simpa using h)
          exact ⟨gs, bs, by simpa using hgs, hread⟩
      | true =>
          cases p with
          | item a =>
              obtain ⟨cs, hcs⟩ := readGroup_of_not_refusing hparted hseg h fun q hq => by
                rw [← Option.some.inj hq]
                exact hmark
              have halone : alone a ≠ none := fun hnone =>
                h ⟨a, hnone, .inl ⟨by simp, hmark⟩⟩
              obtain ⟨ds, hds⟩ := Option.ne_none_iff_exists'.mp halone
              obtain ⟨gs, bs, hgs, hread⟩ := @ih [] (fun b hb => (nomatch hb))
                fun hrest => h (hrest.of_rest hmark)
              refine ⟨seg :: [.item a] :: gs, cs ++ (ds ++ bs), by simp [hgs], ?_⟩
              have hsingle : readGroup alone together [.item a] = some ds := by
                rw [readGroup_single rfl rfl, hds]
              exact readCut_cons_eq_some.mpr ⟨cs, ds ++ bs, hcs,
                readCut_cons_eq_some.mpr ⟨ds, bs, hsingle, hread, rfl⟩, rfl⟩
          | bar => exact nomatch hmark
          | blank => exact nomatch hmark

/-- Every cut is refused exactly when a marked item is refused, or a lonely one
alone. -/
theorem refused_iff (hher : Hereditary together) (hparted : Parted alone together kind)
    (ps : List (Piece α)) :
    (∀ gs, gs.flatten = ps → readCut alone together gs = none) ↔ Refusing alone kind ps := by
  constructor
  · intro h
    by_contra hnot
    obtain ⟨gs, bs, hgs, hread⟩ :=
      @exists_readCut _ _ _ _ kind hparted ps [] (fun a ha => (nomatch ha)) hnot
    rw [h gs hgs] at hread
    exact nomatch hread
  · rintro ⟨a, halone, ⟨ha, hkind⟩ | ⟨hkind, hlonely⟩⟩ gs hgs
    · obtain ⟨ls, rs, rfl⟩ := List.append_of_mem (mem_items.mp ha)
      obtain ⟨gs₁, g₁, g₂, gs₂, rfl, -, -⟩ := exists_group hgs
      by_contra hsome
      obtain ⟨bs, hbs⟩ := Option.ne_none_iff_exists'.mp hsome
      obtain ⟨cs, hcs⟩ := readGroup_of_readCut hbs
      rw [readGroup_of_marked (a := a) hher hparted (mem_items.mpr (by simp)) hkind halone] at hcs
      exact nomatch hcs
    · exact readCut_of_lonely hparted hkind hlonely halone hgs

end Refused

/-- Cuts agree exactly on settled sequences. -/
theorem cutsAgree_iff (hher : Hereditary together) (ps : List (Piece α)) :
    CutsAgree alone together ps ↔ Settled alone together ps := by
  constructor
  · intro h
    by_cases hnone : ∀ gs, gs.flatten = ps → readCut alone together gs = none
    · exact .inr (.inl hnone)
    · push Not at hnone
      obtain ⟨gs, hgs, hsome⟩ := hnone
      obtain ⟨bs, hbs⟩ := Option.ne_none_iff_exists'.mp hsome
      exact settled_of_read hher fun gs' hgs' => by rw [h gs' gs hgs' hgs, hbs]
  · exact cutsAgree_of_settled hher

end Cuts
