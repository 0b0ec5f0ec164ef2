import RawDuck.Ingestor
import RawDuck.Transition

/-!
# RawDuck.SchemaCache

The shape cache over whole runs: ingests, prepared batches, commits, rollbacks
and other people's statements on one native table, in any order.

A shape in the cache says "a payload of this signature needs no schema step on
the table under this token".  `CacheInv` is what that promise needs: it holds
in every state reached by payloads whose signatures tell apart what their
schema steps tell apart (`SignaturesSuffice`), and it fails otherwise, because
the signature has the id of a column's type and not the type.
-/

namespace RawDuck

open Fallible Transition Transition.System

/-! ## the system -/

/-- A connection at work on the table: its ingestor, and the table that a
rollback restores. -/
structure CacheState where
  ingestor : IngestState
  committed : Option (Nat × Table)

/-- What may happen next. -/
inductive CacheEvent (duck : Duck) where
  /-- A new ingestor takes over. -/
  | open
  | ingest (p : ProcessedPayload duck)
  | prepare (p : ProcessedPayload duck)
  | submit (p : ProcessedPayload duck) (usePool : Bool)
  | finish
  | commit
  | rollback
  /-- A statement of somebody else leaves the table like this. -/
  | statement (table : Option Table)

/-- The ingestor is gone and the table is the committed one. -/
def CacheState.rolledBack (s : CacheState) (now : Db) : CacheState :=
  { s with ingestor := .start { now with table := s.committed } }

/-- An ingest step in the open transaction; an error rolls it back. -/
def CacheState.attempt {α : Type} (s : CacheState) (x : Ingest α) : CacheState :=
  match x s.ingestor with
  | .ok _ i => { s with ingestor := i }
  | .error _ i => s.rolledBack i.db

/-- The database after somebody else's statement: another set of columns is
another storage object. -/
def Db.replaced (db : Db) (table : Option Table) : Db :=
  match table with
  | none => { db with table := none }
  | some t =>
      match db.table with
      | some (token, t₀) =>
          if t₀.columns = t.columns then { db with table := some (token, t) }
          else { db with table := some (db.nextToken, t), nextToken := db.nextToken + 1 }
      | none => { db with table := some (db.nextToken, t), nextToken := db.nextToken + 1 }

/-- The catalog never holds two columns of one name. -/
def distinctNames (table : Option Table) : Bool :=
  match table with
  | none => true
  | some t => decide (ciNames t.columns).Nodup

variable (env : NativeEnv)

/-- One event. -/
def cacheStep (s : CacheState) : CacheEvent env.duck → Option CacheState
  | .open => some { s with ingestor := .start s.ingestor.db }
  | .ingest p => some (s.attempt (ingestParsed env p.toRawParsedPayload))
  | .prepare p => some (s.attempt (prepareForAppend env p.toRawParsedPayload))
  | .submit p usePool => some (s.attempt (submitPreparedBatch env p.toRawParsedPayload usePool))
  | .finish => some (s.attempt (finish env))
  | .commit => some { s with committed := s.ingestor.db.table }
  | .rollback => some (s.rolledBack s.ingestor.db)
  | .statement table =>
      if distinctNames table then
        let db := s.ingestor.db.replaced table
        some { ingestor := .start db, committed := db.table }
      else none

/-- Runs start without the table and with an empty cache. -/
def cacheSystem : System CacheState (CacheEvent env.duck) where
  init := { ingestor := .start { table := none, nextToken := 0, cache := none }, committed := none }
  step := cacheStep env

/-- The payloads of the run come from a set. -/
def payloadsIn {duck : Duck} (payloads : Set (ProcessedPayload duck)) :
    CacheState → CacheEvent duck → Prop
  | _, .ingest p | _, .prepare p | _, .submit p _ => p ∈ payloads
  | _, _ => True

/-- `IngestNative` and `PrepareForAppend` take the payload as absorbed by the
table. -/
def TreatedAsAbsorbed (s : CacheState) (p : ProcessedPayload env.duck) (table : Table) : Prop :=
  ∃ token shape, s.ingestor.db.table = some (token, table) ∧ p.columns ≠ [] ∧
    hashPayloadShape env.duck p.columns = .ok shape ∧
    isAbsorbed s.ingestor.db.cache token shape = true

/-- Payloads of one signature need the same of a table: where the first has its
columns, the second has every one of its own, wide enough. -/
def SignaturesSuffice {duck : Duck} (payloads : Set (ProcessedPayload duck)) : Prop :=
  ∀ p ∈ payloads, ∀ q ∈ payloads, (∀ c ∈ p.columns ++ q.columns, isHashable c.name = true) →
    shapeSequence duck p.columns = shapeSequence duck q.columns →
    ∀ c ∈ q.columns, ∃ e ∈ p.columns, lower e.name = lower c.name ∧
      joinColumnTypes e.type c.type = e.type

/-- The FNV fold tells the sequences of these payloads apart. -/
def FoldInjective {duck : Duck} (payloads : Set (ProcessedPayload duck)) : Prop :=
  Set.InjOn (fnvFold 0xcbf29ce484222325)
    (Set.image (fun p => shapeSequence duck p.columns) payloads)

/-- Where there is one sequence only, there is nothing to tell apart. -/
theorem injOn_fnvFold_of_eq {α : Type} {items : Set α} {sequenceOf : α → List UInt64}
    (sequence : List UInt64) (h : ∀ p ∈ items, sequenceOf p = sequence) :
    Set.InjOn (fnvFold 0xcbf29ce484222325) (Set.image sequenceOf items) := by
  rintro _ ⟨p, hp, rfl⟩ _ ⟨q, hq, rfl⟩ -
  exact (h p hp).trans (h q hq).symm

/-! ## the invariant -/

variable {env} {payloads : Set (ProcessedPayload env.duck)}

/-- Every shape recorded for this token is absorbed by these columns. -/
def ShapesAbsorbed (payloads : Set (ProcessedPayload env.duck)) (cache : Option CacheEntry)
    (token : Nat) (columns : List Column) : Prop :=
  ∀ entry, cache = some entry → entry.storageToken = token → ∀ shape ∈ entry.absorbedShapes,
    ∀ q ∈ payloads, q.columns ≠ [] → hashPayloadShape env.duck q.columns = .ok shape →
      Absorbed columns q.columns

/-- A version of the table that the database knows: its names are distinct, its
token is handed out, and the cache is right about it. -/
structure VersionOk (payloads : Set (ProcessedPayload env.duck)) (db : Db) (token : Nat)
    (table : Table) : Prop where
  names : (ciNames table.columns).Nodup
  token_lt : token < db.nextToken
  absorbed : ShapesAbsorbed payloads db.cache token table.columns

/-- What holds of the database while a transaction over the committed version
is open. -/
structure CacheInv (payloads : Set (ProcessedPayload env.duck)) (committed : Option (Nat × Table))
    (db : Db) : Prop where
  current : ∀ token t, db.table = some (token, t) → VersionOk payloads db token t
  saved : ∀ token t, committed = some (token, t) → VersionOk payloads db token t
  same : ∀ token t t', db.table = some (token, t) → committed = some (token, t') →
    t.columns = t'.columns
  entry_lt : ∀ entry, db.cache = some entry → entry.storageToken < db.nextToken

variable {committed : Option (Nat × Table)} {db : Db}

/-- The databases differ in the rows of the table at most. -/
structure RowsOnly (db db' : Db) : Prop where
  version : db'.table.map (fun v => (v.1, v.2.columns)) =
    db.table.map fun v => (v.1, v.2.columns)
  nextToken : db'.nextToken = db.nextToken
  cache : db'.cache = db.cache

theorem RowsOnly.refl (db : Db) : RowsOnly db db := ⟨rfl, rfl, rfl⟩

theorem RowsOnly.trans {db db' db'' : Db} (h : RowsOnly db db') (h' : RowsOnly db' db'') :
    RowsOnly db db'' :=
  ⟨h'.version.trans h.version, h'.nextToken.trans h.nextToken, h'.cache.trans h.cache⟩

theorem RowsOnly.rows {db : Db} {token : Nat} {t t' : Table} (ht : db.table = some (token, t))
    (hcols : t'.columns = t.columns) : RowsOnly db { db with table := some (token, t') } :=
  ⟨by rw [ht]; simp [hcols], rfl, rfl⟩

/-- The version of the table is there on the other side. -/
theorem RowsOnly.exists_table {db db' : Db} (h : RowsOnly db db') {token : Nat} {t : Table}
    (ht : db.table = some (token, t)) :
    ∃ t', db'.table = some (token, t') ∧ t'.columns = t.columns := by
  have hv := h.version
  rw [ht, Option.map_some, Option.map_eq_some_iff] at hv
  obtain ⟨⟨token', t'⟩, ht', heq⟩ := hv
  obtain ⟨rfl, hcols⟩ := Prod.mk.inj heq
  exact ⟨t', ht', hcols⟩

theorem RowsOnly.symm {db db' : Db} (h : RowsOnly db db') : RowsOnly db' db :=
  ⟨h.version.symm, h.nextToken.symm, h.cache.symm⟩

/-- A change of rows keeps the invariant. -/
theorem CacheInv.rowsOnly (h : CacheInv payloads committed db) {db' : Db}
    (hrows : RowsOnly db db') : CacheInv payloads committed db' where
  current := by
    intro token t ht
    obtain ⟨t₀, ht₀, hcols⟩ := hrows.symm.exists_table ht
    obtain ⟨hn, hl, ha⟩ := h.current token t₀ ht₀
    rw [hcols] at hn ha
    exact ⟨hn, hrows.nextToken ▸ hl, hrows.cache ▸ ha⟩
  saved := by
    intro token t ht
    obtain ⟨hn, hl, ha⟩ := h.saved token t ht
    exact ⟨hn, hrows.nextToken ▸ hl, hrows.cache ▸ ha⟩
  same := by
    intro token t t' ht ht'
    obtain ⟨t₀, ht₀, hcols⟩ := hrows.symm.exists_table ht
    exact hcols.symm.trans (h.same token t₀ t' ht₀ ht')
  entry_lt := by
    rw [hrows.cache, hrows.nextToken]
    exact h.entry_lt

/-- Handing out tokens and putting a version under a new one keeps the
invariant: the cache has nothing on new tokens. -/
theorem CacheInv.fresh (h : CacheInv payloads committed db) {token next : Nat} {t : Table}
    (hnd : (ciNames t.columns).Nodup) (hle : db.nextToken ≤ token) (hlt : token < next) :
    CacheInv payloads committed { db with table := some (token, t), nextToken := next } where
  current := by
    rintro token' u hu
    cases hu
    refine ⟨hnd, hlt, fun entry hentry htoken => ?_⟩
    have := h.entry_lt entry hentry
    omega
  saved := by
    intro token' u hu
    obtain ⟨hn, hl, ha⟩ := h.saved token' u hu
    exact ⟨hn, by show token' < next; omega, ha⟩
  same := by
    rintro token' u u' hu hu'
    cases hu
    have := (h.saved token u' hu').token_lt
    omega
  entry_lt := by
    intro entry hentry
    have := h.entry_lt entry hentry
    show entry.storageToken < next
    omega

/-- A schema step keeps the invariant. -/
theorem CacheInv.evolved (h : CacheInv payloads committed db) {token : Nat} {t : Table}
    (ht : db.table = some (token, t)) {columns : List RawColumn} {s : Evolved}
    (hs : EvolveInv t columns s) (hnd : (ciNames s.table.columns).Nodup) :
    CacheInv payloads committed (db.evolved token s) := by
  rw [Db.evolved]
  by_cases hzero : s.added + s.widened = 0
  · simp only [hzero, if_true, Nat.add_zero]
    rw [hs.unchanged hzero]
    exact h.rowsOnly (.rows ht rfl)
  · simp only [hzero, if_false]
    exact h.fresh hnd (by omega) (by omega)

/-- Noting a shape keeps the invariant when every payload of the shape is
absorbed by the table. -/
theorem CacheInv.noted (h : CacheInv payloads committed db) {token : Nat} {t : Table}
    (ht : db.table = some (token, t)) {shape : UInt64}
    (habsorbed : ∀ q ∈ payloads, q.columns ≠ [] → hashPayloadShape env.duck q.columns = .ok shape →
      Absorbed t.columns q.columns) :
    CacheInv payloads committed { db with cache := some (absorbShape db.cache token shape) } := by
  -- the recorded shapes of a version with the columns of `t` are right
  have hshapes : ∀ columns token', ShapesAbsorbed payloads db.cache token' columns →
      (token' = token → columns = t.columns) →
      ShapesAbsorbed payloads (some (absorbShape db.cache token shape)) token' columns := by
    rintro columns token' hold hcols entry hentry htoken sh hsh q hq hne hash
    cases hentry
    unfold absorbShape at htoken hsh
    have hnew : token' = token → sh = shape → Absorbed columns q.columns := by
      rintro htok rfl
      rw [hcols htok]
      exact habsorbed q hq hne hash
    cases hc : db.cache with
    | none =>
        simp only [hc] at htoken hsh
        exact hnew htoken.symm (List.mem_singleton.mp hsh)
    | some entry =>
        simp only [hc] at htoken hsh
        split at hsh
        · next heq =>
          simp only [heq, if_true] at htoken
          rcases List.mem_cons.mp hsh with hsh | hsh
          · exact hnew (htoken.symm.trans (beq_iff_eq.mp heq)) hsh
          · exact hold entry hc htoken sh hsh q hq hne hash
        · next hneq =>
          simp only [hneq] at htoken
          exact hnew htoken.symm (List.mem_singleton.mp hsh)
  refine ⟨fun token' u hu => ?_, fun token' u hu => ?_, h.same, fun entry hentry => ?_⟩
  · obtain ⟨hn, hl, ha⟩ := h.current token' u hu
    refine ⟨hn, hl, hshapes _ _ ha fun htok => ?_⟩
    rw [ht] at hu
    cases hu
    rfl
  · obtain ⟨hn, hl, ha⟩ := h.saved token' u hu
    refine ⟨hn, hl, hshapes _ _ ha fun htok => ?_⟩
    subst htok
    exact (h.same token' t u ht hu).symm
  · cases hentry
    have hlt := (h.current token t ht).token_lt
    unfold absorbShape
    split
    · split
      · next entry hcache _ => exact h.entry_lt entry hcache
      · exact hlt
    · exact hlt

/-! ## what the steps of an ingest leave -/

section Steps

variable {s : IngestState} {parsed : RawParsedPayload} {token : Nat} {table : Table}

/-- The database differs from `db` in the rows of the table at most. -/
abbrev rowsKept {α : Type} (db : Db) : α → IngestState → Prop := fun _ u => RowsOnly db u.db

theorem lookupTableCached_leaves (inv : IngestState → Prop) :
    Leaves lookupTableCached s (fun t u => t = s.db.table ∧ u.db = s.db) inv := by
  constructor
  · intro t u h
    rw [lookupTableCached_eq] at h
    cases h
    exact ⟨rfl, lookedUp_db s⟩
  · intro e u h
    rw [lookupTableCached_eq] at h
    exact nomatch h

theorem ensurePool_leaves (inv : IngestState → Prop) :
    Leaves (ensurePool env table parsed) s (fun _ u => u.db = s.db) inv := by
  refine .get_bind ?_
  split
  · exact .pure rfl
  · exact .set rfl

theorem drainIntoTable_leaves {pool : Pool} (ht : s.db.table = some (token, table)) :
    Leaves (drainIntoTable env pool token table) s (rowsKept s.db) fun u => RowsOnly s.db u.db := by
  refine Leaves.bind (fun _ u => u = s) (.fromExcept (fun _ _ => rfl) (.refl _)) ?_
  rintro rows _ rfl
  exact .modify (.rows ht rfl)

theorem resolveLayout_leaves :
    Leaves (resolveLayout env token table parsed) s (fun _ u => u.db = s.db)
      fun u => u.db = s.db := by
  constructor
  · intro layout u h
    obtain ⟨_, -, rfl, -⟩ := resolveLayout_ok h
    rfl
  · intro e u h
    rcases run_bind_eq_error.mp h with h | ⟨shape, u', hshape, h⟩
    · rw [(run_fromExcept_eq_error.mp h).2]
    · rw [(run_fromExcept_eq_ok.mp hshape).2] at h
      rcases run_bind_eq_error.mp h with h | ⟨_, _, hget, h⟩
      · exact nomatch h
      · cases hget
        split at h
        · exact nomatch h
        · rcases run_bind_eq_error.mp h with h | ⟨_, _, -, h⟩
          · rw [(run_fromExcept_eq_error.mp h).2]
          · exact nomatch h

theorem appendNative_leaves (env : NativeEnv) (parsed : RawParsedPayload)
    (ht : s.db.table = some (token, table)) :
    Leaves (appendNative env token table parsed) s (rowsKept s.db)
      fun u => RowsOnly s.db u.db := by
  unfold appendNative
  split
  · exact .bind (fun _ _ => False) (.throw (.refl _)) fun _ _ h => h.elim
  · refine .bind _ (resolveLayout_leaves.mono (fun _ _ h => h) fun u h => h ▸ .refl _) ?_
    intro layout u hu
    refine .bind (fun t v => u = v ∧ t.columns = table.columns)
      (.fromExcept (fun t h => ⟨rfl, appendBlocks_columns h⟩) (hu ▸ .refl _)) ?_
    rintro t _ ⟨rfl, hcols⟩
    refine .modify ?_
    show RowsOnly s.db { u.db with table := some (token, t) }
    rw [hu]
    exact .rows ht hcols

theorem submitOrAppend_leaves (env : NativeEnv) (parsed : RawParsedPayload)
    (ht : s.db.table = some (token, table)) :
    Leaves (submitOrAppend env token table parsed) s (rowsKept s.db)
      fun u => RowsOnly s.db u.db := by
  refine .bind _ (ensurePool_leaves _) fun _ u hdb => .get_bind ?_
  split
  · refine .set ?_
    show RowsOnly s.db u.db
    exact hdb ▸ .refl _
  · have happend := appendNative_leaves env parsed (hdb.symm ▸ ht)
    rwa [hdb] at happend

theorem appendRows_leaves (env : NativeEnv) (parsed : RawParsedPayload) (s : IngestState) :
    Leaves (appendRows env parsed) s (rowsKept s.db) fun u => RowsOnly s.db u.db := by
  unfold appendRows
  split
  · exact .pure (.refl _)
  · refine .bind _ (lookupTableCached_leaves _) ?_
    rintro _ u ⟨rfl, hdb⟩
    cases ht : s.db.table with
    | none => exact .throw (hdb ▸ .refl _)
    | some version =>
        have htable : u.db.table = some (version.1, version.2) := by rw [hdb, ht]
        have hsubmit := submitOrAppend_leaves env parsed htable
        rwa [hdb] at hsubmit

/-- The database `db` after its schema step for the payload. -/
def SchemaStepped (env : NativeEnv) (parsed : RawParsedPayload) (token : Nat) (table : Table)
    (db db' : Db) : Prop :=
  ∃ before ready evolved, RowsOnly db ready ∧ ready.table = some (token, before) ∧
    before.columns = table.columns ∧
    evolveNative env.duck env.catalog before parsed.columns = .ok evolved ∧
    db' = ready.evolved token evolved

theorem drainForWidening_leaves {widens : Bool} (ht : s.db.table = some (token, table)) :
    Leaves (drainForWidening env token table widens) s (rowsKept s.db)
      fun u => RowsOnly s.db u.db := by
  refine .get_bind ?_
  split
  · split
    · exact drainIntoTable_leaves ht
    · exact .pure (.refl _)
  · exact .pure (.refl _)

theorem evolveCurrent_leaves (ht : s.db.table = some (token, table)) :
    Leaves (evolveCurrent env parsed) s
      (fun _ u => ∃ evolved, evolveNative env.duck env.catalog table parsed.columns = .ok evolved ∧
        u.db = s.db.evolved token evolved)
      fun u => u.db = s.db := by
  refine .get_bind ?_
  simp only [ht]
  refine .bind (fun evolved u => u = s ∧
    evolveNative env.duck env.catalog table parsed.columns = .ok evolved)
    (.fromExcept (fun evolved h => ⟨rfl, h⟩) rfl) ?_
  rintro evolved _ ⟨rfl, hevolved⟩
  exact .modify ⟨evolved, hevolved, rfl⟩

theorem schemaStep_leaves (ht : s.db.table = some (token, table)) :
    Leaves (schemaStep env token table parsed) s
      (fun _ u => SchemaStepped env parsed token table s.db u.db) fun u => RowsOnly s.db u.db := by
  refine .bind _ (drainForWidening_leaves ht) fun _ t hrows => ?_
  obtain ⟨before, hbefore, hcols⟩ := hrows.exists_table ht
  refine .bind _ ((evolveCurrent_leaves hbefore).mono (fun _ _ h => h) fun u h => h ▸ hrows) ?_
  rintro _ u ⟨evolved, hevolved, hdb⟩
  have hstepped : SchemaStepped env parsed token table s.db u.db :=
    ⟨before, t.db, evolved, hrows, hbefore, hcols, hevolved, hdb⟩
  refine .bind (fun _ v => v.db = u.db) (.modify rfl) fun _ v hv => ?_
  split
  · exact .pure (hv ▸ hstepped)
  · refine .modify ?_
    show SchemaStepped env parsed token table s.db v.db
    exact hv ▸ hstepped

/-- The end of `absorb`: the shape is noted on the version the schema step
left. -/
theorem absorb_leaves {shape : UInt64} (ht : s.db.table = some (token, table)) :
    Leaves (absorb env token table shape parsed) s
      (fun _ u => ∃ db' token' table', SchemaStepped env parsed token table s.db db' ∧
        db'.table = some (token', table') ∧
        u.db = { db' with cache := some (absorbShape db'.cache token' shape) })
      fun u => RowsOnly s.db u.db := by
  refine .bind _ (schemaStep_leaves ht) fun _ t hstep => ?_
  refine .bind _ (lookupTableCached_leaves _) ?_
  rintro _ u ⟨rfl, hdb⟩
  obtain ⟨before, ready, evolved, hrows, hready, hcols, hevolved, hdb'⟩ := hstep
  obtain ⟨token', htable⟩ : ∃ token', t.db.table = some (token', evolved.table) :=
    ⟨_, by rw [hdb']; rfl⟩
  simp only [htable]
  refine .modify ⟨t.db, _, evolved.table, ⟨before, ready, evolved, hrows, hready, hcols, hevolved,
    hdb'⟩, htable, ?_⟩
  rw [← hdb]

theorem createTable_leaves :
    Leaves (createTable env parsed) s
      (fun _ u => ∃ table, createNative env.catalog parsed.columns = .ok table ∧
        u.db = { s.db with table := some (s.db.nextToken, table),
                           nextToken := s.db.nextToken + 1 })
      fun u => u.db = s.db := by
  constructor
  · intro _ u h
    obtain ⟨table, hcreated, rfl⟩ := createTable_ok h
    exact ⟨table, hcreated, rfl⟩
  · intro e u h
    rcases run_bind_eq_error.mp h with h | ⟨table, u', hcreated, h⟩
    · rw [(run_fromExcept_eq_error.mp h).2]
    · exact nomatch h

end Steps

/-! ## what a batch keeps -/

section Batches

variable {s : IngestState} {p q : ProcessedPayload env.duck} {token : Nat} {table : Table}

/-- The database keeps the invariant. -/
abbrev invKept {α : Type} (payloads : Set (ProcessedPayload env.duck))
    (committed : Option (Nat × Table)) : α → IngestState → Prop :=
  fun _ u => CacheInv payloads committed u.db

theorem absorbed_of_covers (hq : CiDistinct p.columns)
    (h : ∀ c ∈ q.columns, ∃ e ∈ p.columns, lower e.name = lower c.name ∧
      joinColumnTypes e.type c.type = e.type) :
    Absorbed (tableColumns p.columns) q.columns := by
  intro c hc
  obtain ⟨e, he, hname, hjoin⟩ := h c hc
  exact ⟨_, findColumn_tableColumns hq he hname, hjoin⟩

/-- Payloads of one signature need no schema step after each other. -/
theorem absorbed_of_shape (hfold : FoldInjective payloads) (hsuff : SignaturesSuffice payloads)
    (hp : p ∈ payloads) (hq : q ∈ payloads) {shape : UInt64}
    (hps : hashPayloadShape env.duck p.columns = .ok shape)
    (hqs : hashPayloadShape env.duck q.columns = .ok shape) :
    Absorbed (tableColumns p.columns) q.columns := by
  obtain ⟨hpn, hpf⟩ := hashPayloadShape_eq_ok.mp hps
  obtain ⟨hqn, hqf⟩ := hashPayloadShape_eq_ok.mp hqs
  have hseq := hfold ⟨p, hp, rfl⟩ ⟨q, hq, rfl⟩ (hpf.trans hqf.symm)
  refine absorbed_of_covers p.ciDistinct (hsuff p hp q hq (fun c hc => ?_) hseq)
  rcases List.mem_append.mp hc with hc | hc
  · exact hpn c hc
  · exact hqn c hc

/-- The schema step of a payload keeps the invariant, and so does noting its
shape afterwards. -/
theorem CacheInv.schemaStepped (hinv : CacheInv payloads committed db)
    (ht : db.table = some (token, table)) {db' : Db}
    (hstep : SchemaStepped env p.toRawParsedPayload token table db db') :
    CacheInv payloads committed db' ∧ ∀ token' table', db'.table = some (token', table') →
      table'.columns = evolvedColumns table.columns p.columns := by
  obtain ⟨before, ready, evolved, hrows, hready, hcols, hevolved, rfl⟩ := hstep
  have hnd := (hinv.current token table ht).names
  rw [← hcols] at hnd ⊢
  have hspec := evolveNative_spec hnd p.ciDistinct hevolved
  constructor
  · refine (hinv.rowsOnly hrows).evolved hready hspec ?_
    rw [hspec.columns_eq]
    exact nodup_evolvedColumns hnd p.ciDistinct
  · intro token' table' ht'
    cases ht'
    exact hspec.columns_eq

theorem absorb_kept (hfold : FoldInjective payloads) (hsuff : SignaturesSuffice payloads)
    (hp : p ∈ payloads) (hinv : CacheInv payloads committed s.db)
    (ht : s.db.table = some (token, table)) {shape : UInt64}
    (hshape : hashPayloadShape env.duck p.columns = .ok shape) :
    Leaves (absorb env token table shape p.toRawParsedPayload) s (invKept payloads committed)
      fun u => CacheInv payloads committed u.db := by
  refine (absorb_leaves ht).mono ?_ fun u hrows => hinv.rowsOnly hrows
  rintro _ u ⟨db', token', table', hstep, ht', hdb⟩
  obtain ⟨hinv', hcols⟩ := hinv.schemaStepped ht hstep
  rw [invKept, hdb]
  refine hinv'.noted ht' fun q hq _ hqs => ?_
  rw [hcols token' table' ht']
  have hown : Absorbed (evolvedColumns table.columns p.columns) p.columns :=
    absorbed_evolvedColumns p.ciDistinct fun c hc => p.inferable hc
  exact hown.trans (absorbed_of_shape hfold hsuff hp hq hshape hqs) (fun c hc => p.inferable hc)
    fun c hc => q.inferable hc

/-- A computation behind the schema step, which a noted shape goes without. -/
theorem absorb_then_kept {α : Type} {rows : Ingest α} (hfold : FoldInjective payloads)
    (hsuff : SignaturesSuffice payloads) (hp : p ∈ payloads)
    (hinv : CacheInv payloads committed s.db) (ht : s.db.table = some (token, table))
    (hrows : ∀ u : IngestState, CacheInv payloads committed u.db →
      Leaves rows u (invKept payloads committed) fun v => CacheInv payloads committed v.db) :
    Leaves (do
      let shape ← fromExcept (hashPayloadShape env.duck p.columns)
      let t ← get
      if isAbsorbed t.db.cache token shape then rows
      else do
        absorb env token table shape p.toRawParsedPayload
        rows) s (invKept payloads committed) fun u => CacheInv payloads committed u.db := by
  refine .bind (fun shape v => v = s ∧ hashPayloadShape env.duck p.columns = .ok shape)
    (.fromExcept (fun shape h => ⟨rfl, h⟩) hinv) ?_
  rintro shape _ ⟨rfl, hshape⟩
  refine .get_bind ?_
  split
  · exact hrows _ hinv
  · exact .bind _ (absorb_kept hfold hsuff hp hinv ht hshape) fun _ v hv => hrows v hv

theorem appendRows_kept {parsed : RawParsedPayload} (hinv : CacheInv payloads committed s.db) :
    Leaves (appendRows env parsed) s (invKept payloads committed)
      fun u => CacheInv payloads committed u.db :=
  (appendRows_leaves env parsed s).mono (fun _ _ h => hinv.rowsOnly h) fun _ h => hinv.rowsOnly h

theorem createTable_kept (hinv : CacheInv payloads committed s.db) :
    Leaves (createTable env p.toRawParsedPayload) s (invKept payloads committed)
      fun u => CacheInv payloads committed u.db := by
  refine createTable_leaves.mono ?_ fun u hdb => hdb ▸ hinv
  rintro _ u ⟨table, hcreated, hdb⟩
  rw [invKept, hdb]
  exact hinv.fresh (wf_createNative p.ciDistinct hcreated).names (Nat.le_refl _)
    (Nat.lt_succ_self _)

theorem ingestNative_kept (hfold : FoldInjective payloads) (hsuff : SignaturesSuffice payloads)
    (hp : p ∈ payloads) (hinv : CacheInv payloads committed s.db) :
    Leaves (ingestNative env p.toRawParsedPayload) s (invKept payloads committed)
      fun u => CacheInv payloads committed u.db := by
  refine .bind _ (lookupTableCached_leaves _) ?_
  rintro _ u ⟨rfl, hdb⟩
  rw [← hdb] at hinv ⊢
  cases ht : u.db.table with
  | none =>
      simp only [legacyIngestNative]
      split
      · exact .throw hinv
      · split
        · exact .pure hinv
        · exact .bind _ (createTable_kept hinv) fun _ v hv => appendRows_kept hv
  | some version =>
      obtain ⟨token, table⟩ := version
      dsimp only
      split
      · next hempty =>
        simp only [legacyIngestNative, hempty, Option.isNone_some, Bool.false_and,
          Bool.false_eq_true, if_false, if_true]
        exact .pure hinv
      · exact absorb_then_kept hfold hsuff hp hinv ht fun v hv => appendRows_kept hv

theorem prepareRows_kept {parsed : RawParsedPayload} (hinv : CacheInv payloads committed s.db) :
    Leaves (prepareRows env parsed) s (invKept payloads committed)
      fun u => CacheInv payloads committed u.db := by
  unfold prepareRows
  split
  · exact .pure hinv
  · refine .bind _ (lookupTableCached_leaves _) ?_
    rintro _ u ⟨rfl, hdb⟩
    rw [← hdb] at hinv ⊢
    cases u.db.table with
    | none => exact .throw hinv
    | some version =>
        refine .bind _ (ensurePool_leaves _) fun _ v hv => .get_bind (.pure ?_)
        rwa [invKept, hv]

theorem prepareForAppend_kept (hfold : FoldInjective payloads)
    (hsuff : SignaturesSuffice payloads) (hp : p ∈ payloads)
    (hinv : CacheInv payloads committed s.db) :
    Leaves (prepareForAppend env p.toRawParsedPayload) s (invKept payloads committed)
      fun u => CacheInv payloads committed u.db := by
  refine .bind _ (lookupTableCached_leaves _) ?_
  rintro _ u ⟨rfl, hdb⟩
  rw [← hdb] at hinv ⊢
  cases ht : u.db.table with
  | none => exact .pure hinv
  | some version =>
      obtain ⟨token, table⟩ := version
      dsimp only
      split
      · exact .pure hinv
      · exact absorb_then_kept hfold hsuff hp hinv ht fun v hv => prepareRows_kept hv

theorem submitPreparedBatch_kept {parsed : RawParsedPayload} {usePool : Bool}
    (hinv : CacheInv payloads committed s.db) :
    Leaves (submitPreparedBatch env parsed usePool) s (invKept payloads committed)
      fun u => CacheInv payloads committed u.db := by
  unfold submitPreparedBatch
  split
  · exact .pure hinv
  · refine .get_bind ?_
    split
    · exact .set hinv
    · refine .bind _ (lookupTableCached_leaves _) ?_
      rintro _ u ⟨rfl, hdb⟩
      rw [← hdb] at hinv ⊢
      cases ht : u.db.table with
      | none => exact .throw hinv
      | some version =>
          exact (appendNative_leaves env parsed ht).mono (fun _ _ h => hinv.rowsOnly h)
            fun _ h => hinv.rowsOnly h

theorem finish_kept (hinv : CacheInv payloads committed s.db) :
    Leaves (finish env) s (invKept payloads committed)
      fun u => CacheInv payloads committed u.db := by
  refine .get_bind ?_
  split
  · exact .pure hinv
  · cases ht : s.db.table with
    | none => exact .throw hinv
    | some version =>
        exact (drainIntoTable_leaves ht).mono (fun _ _ h => hinv.rowsOnly h)
          fun _ h => hinv.rowsOnly h

end Batches

/-! ## runs -/

section Runs

variable {p q : ProcessedPayload env.duck}

theorem CacheInv.rolledBack (hinv : CacheInv payloads committed db) :
    CacheInv payloads committed { db with table := committed } where
  current token t ht :=
    ⟨(hinv.saved token t ht).names, (hinv.saved token t ht).token_lt,
      (hinv.saved token t ht).absorbed⟩
  saved token t ht :=
    ⟨(hinv.saved token t ht).names, (hinv.saved token t ht).token_lt,
      (hinv.saved token t ht).absorbed⟩
  same := by
    rintro token t t' ht ht'
    obtain rfl : t = t' := by simpa using ht.symm.trans ht'
    rfl
  entry_lt := hinv.entry_lt

theorem CacheInv.commit (hinv : CacheInv payloads committed db) :
    CacheInv payloads db.table db where
  current := hinv.current
  saved := hinv.current
  same := by
    rintro token t t' ht ht'
    obtain rfl : t = t' := by simpa using ht.symm.trans ht'
    rfl
  entry_lt := hinv.entry_lt

theorem attempt_kept {s : CacheState} {α : Type} {x : Ingest α}
    (h : Leaves x s.ingestor (invKept payloads s.committed)
      fun u => CacheInv payloads s.committed u.db) :
    CacheInv payloads (s.attempt x).committed (s.attempt x).ingestor.db := by
  rw [CacheState.attempt]
  split
  · next a i hok => exact h.1 a i hok
  · next e i herr => exact (h.2 e i herr).rolledBack

theorem CacheInv.dropped (hinv : CacheInv payloads committed db) :
    CacheInv payloads committed { db with table := none } where
  current _ _ h := nomatch h
  saved token t ht :=
    ⟨(hinv.saved token t ht).names, (hinv.saved token t ht).token_lt,
      (hinv.saved token t ht).absorbed⟩
  same _ _ _ h := nomatch h
  entry_lt := hinv.entry_lt

theorem CacheInv.replaced (hinv : CacheInv payloads committed db) {table : Option Table}
    (hnames : distinctNames table = true) : CacheInv payloads committed (db.replaced table) := by
  unfold Db.replaced
  cases table with
  | none => exact hinv.dropped
  | some t =>
      have hnd : (ciNames t.columns).Nodup := by simpa [distinctNames] using hnames
      cases ht : db.table with
      | none => exact hinv.fresh hnd (Nat.le_refl _) (Nat.lt_succ_self _)
      | some version =>
          obtain ⟨token, t₀⟩ := version
          dsimp only
          split
          · next hcols => exact hinv.rowsOnly (.rows ht hcols.symm)
          · exact hinv.fresh hnd (Nat.le_refl _) (Nat.lt_succ_self _)

/-- **Step lemma**: every event keeps the invariant. -/
theorem CacheInv.step (hfold : FoldInjective payloads) (hsuff : SignaturesSuffice payloads)
    {s s' : CacheState} {e : CacheEvent env.duck} (he : payloadsIn payloads s e)
    (hinv : CacheInv payloads s.committed s.ingestor.db) (hs : cacheStep env s e = some s') :
    CacheInv payloads s'.committed s'.ingestor.db := by
  cases e with
  | «open» =>
      cases hs
      exact hinv
  | ingest p =>
      cases hs
      refine attempt_kept ?_
      refine .bind (fun _ u => u.db = s.ingestor.db) (.modify rfl) fun _ u hu => ?_
      exact ingestNative_kept hfold hsuff he (hu ▸ hinv)
  | prepare p =>
      cases hs
      exact attempt_kept (prepareForAppend_kept hfold hsuff he hinv)
  | submit p usePool =>
      cases hs
      exact attempt_kept (submitPreparedBatch_kept hinv)
  | finish =>
      cases hs
      exact attempt_kept (finish_kept hinv)
  | commit =>
      cases hs
      exact hinv.commit
  | rollback =>
      cases hs
      exact hinv.rolledBack
  | statement table =>
      rw [cacheStep] at hs
      split at hs
      · next hnames =>
        cases hs
        exact (hinv.replaced hnames).commit
      · exact nomatch hs

/-- **Run lemma**: the invariant holds in every state reached. -/
theorem CacheInv.reachable (hfold : FoldInjective payloads) (hsuff : SignaturesSuffice payloads)
    {s : CacheState} (h : Reachable (cacheSystem env) (payloadsIn payloads) s) :
    CacheInv payloads s.committed s.ingestor.db := by
  refine h.invariant (fun s => CacheInv payloads s.committed s.ingestor.db) ?_ ?_
  · exact ⟨fun _ _ h => (nomatch h), fun _ _ h => (nomatch h), fun _ _ _ h => (nomatch h),
      fun _ h => (nomatch h)⟩
  · exact fun s e s' hinv he hs => hinv.step hfold hsuff he hs

/-- A payload taken as absorbed is absorbed. -/
theorem CacheInv.absorbed (hinv : CacheInv payloads committed db) {token : Nat} {table : Table}
    (ht : db.table = some (token, table)) (hq : q ∈ payloads) (hne : q.columns ≠ [])
    {shape : UInt64} (hshape : hashPayloadShape env.duck q.columns = .ok shape)
    (hhit : isAbsorbed db.cache token shape = true) : Absorbed table.columns q.columns := by
  unfold isAbsorbed at hhit
  split at hhit
  · next entry hentry =>
    rw [Bool.and_eq_true, beq_iff_eq, List.contains_iff_mem] at hhit
    exact (hinv.current token table ht).absorbed entry hentry hhit.1 shape hhit.2 q hq hne hshape
  · exact nomatch hhit

/-- Somebody creates the table that the payload would have created, and the
payload is ingested: its signature is noted. -/
theorem exists_noted (hp : p ∈ payloads) (hne : p.columns ≠ []) {shape : UInt64}
    (hshape : hashPayloadShape env.duck p.columns = .ok shape) :
    ∃ s table, Reachable (cacheSystem env) (payloadsIn payloads) s ∧
      s.ingestor.db.table = some (0, table) ∧ table.columns = tableColumns p.columns ∧
      isAbsorbed s.ingestor.db.cache 0 shape = true := by
  let created : Table :=
    { columns := tableColumns p.columns, rows := [], hasIndexes := false, constraints := [] }
  let db : Db := { table := some (0, created), nextToken := 1, cache := none }
  let before : CacheState := { ingestor := .start db, committed := some (0, created) }
  have hbefore : Reachable (cacheSystem env) (payloadsIn payloads) before := by
    refine .step .init (a := .statement (some created)) trivial ?_
    have hnd : (ciNames (tableColumns p.columns)).Nodup := by
      rw [ciNames_tableColumns]
      exact p.ciDistinct
    show cacheStep env _ (.statement (some created)) = some before
    rw [cacheStep, if_pos (by simpa [distinctNames] using hnd)]
    rfl
  -- the schema step finds nothing to do, so the shape is noted before the rows
  let start : IngestState :=
    { before.ingestor with errors := before.ingestor.errors + p.payload.parseErrors }
  have hev : evolveNative env.duck env.catalog created p.columns = .ok _ :=
    evolveNative_of_absorbed (absorbed_tableColumns p.ciDistinct)
  have htable : start.db.table = some (0, created) := rfl
  obtain ⟨u, hrun, hready⟩ := ingestNative_miss rfl htable hne hshape rfl hev rfl
  have hdb := hready.db_eq
  have hingest : ingestParsed env p.toRawParsedPayload before.ingestor =
      appendRows env p.toRawParsedPayload u := by
    rw [← hrun, ingestParsed, run_bind_of_ok run_modify]
  have hrows := appendRows_leaves env p.toRawParsedPayload u
  have hnoted : ∀ {v : Db}, RowsOnly u.db v → isAbsorbed v.cache 0 shape = true := by
    intro v hv
    rw [hv.cache, hdb]
    simp [isAbsorbed, absorbShape, start, before, IngestState.start, db]
  refine ⟨before.attempt (ingestParsed env p.toRawParsedPayload), ?_⟩
  have hreach : Reachable (cacheSystem env) (payloadsIn payloads)
      (before.attempt (ingestParsed env p.toRawParsedPayload)) :=
    .step hbefore (a := .ingest p) hp rfl
  have hu : u.db.table = some (0, created) := by rw [hdb]; rfl
  rw [CacheState.attempt] at hreach ⊢
  cases hres : ingestParsed env p.toRawParsedPayload before.ingestor with
  | ok _ v =>
      rw [hres] at hreach
      rw [hingest] at hres
      have hv := hrows.1 _ v hres
      obtain ⟨table, htable, hcols⟩ := hv.exists_table hu
      exact ⟨table, hreach, htable, hcols, hnoted hv⟩
  | error e v =>
      rw [hres] at hreach
      rw [hingest] at hres
      have hcache : isAbsorbed v.db.cache 0 shape = true := hnoted (hrows.2 e v hres)
      exact ⟨created, hreach, rfl, rfl, hcache⟩

/-- **The cache is right in every run exactly when signatures suffice**: a
payload taken as absorbed has nothing to add and nothing to widen, and the
schema step that is skipped would have changed nothing. -/
theorem treatedAsAbsorbed_iff (env : NativeEnv) (payloads : Set (ProcessedPayload env.duck))
    (hfold : FoldInjective payloads) :
    (∀ s, Reachable (cacheSystem env) (payloadsIn payloads) s → ∀ p ∈ payloads, ∀ table,
      TreatedAsAbsorbed env s p table →
        computeDelta table.columns p.columns = ([], false) ∧
        evolveNative env.duck env.catalog table p.columns =
          .ok { table, added := 0, widened := 0 }) ↔
    SignaturesSuffice payloads := by
  constructor
  · intro h p hp q hq hhash hseq c hc
    have hqne : q.columns ≠ [] := List.ne_nil_of_mem hc
    have hpne : p.columns ≠ [] := by
      intro hnil
      rw [hnil] at hseq
      cases hcols : q.columns with
      | nil => exact hqne hcols
      | cons d rest =>
          rw [hcols, shapeSequence_cons, columnSequence] at hseq
          simp [shapeSequence] at hseq
    have hps : hashPayloadShape env.duck p.columns = .ok _ := hashPayloadShape_eq_ok.mpr
      ⟨fun c hc => hhash c (List.mem_append_left _ hc), rfl⟩
    have hqs : hashPayloadShape env.duck q.columns = .ok _ := hashPayloadShape_eq_ok.mpr
      ⟨fun c hc => hhash c (List.mem_append_right _ hc), rfl⟩
    rw [← hseq] at hqs
    obtain ⟨s, table, hreach, htable, hcols, hhit⟩ := exists_noted hp hpne hps
    have hdelta := (h s hreach q hq table ⟨0, _, htable, hqne, hqs, hhit⟩).1
    obtain ⟨e, he, hjoin⟩ := computeDelta_eq_nil.mp hdelta c hc
    rw [hcols] at he
    obtain ⟨hmem, hname⟩ := findColumn_some he
    obtain ⟨e', he', rfl⟩ := List.mem_map.mp hmem
    exact ⟨e', he', hname, hjoin⟩
  · rintro hsuff s hreach p hp table ⟨token, shape, htable, hne, hshape, hhit⟩
    have habsorbed := (CacheInv.reachable hfold hsuff hreach).absorbed htable hp hne hshape hhit
    exact ⟨computeDelta_eq_nil.mpr habsorbed, evolveNative_of_absorbed habsorbed⟩

end Runs

/-! ## two lists of one type id -/

/-- `{"a": [1]}`. -/
def numbersPayload : ProcessedPayload smallDuck :=
  .ofRows smallDuck [.obj [(bytes "a", .arr [.uint 1])]]
    [{ name := bytes "a", path := [bytes "a"], type := .list .BIGINT, node := [0] }] rfl rfl

/-- `{"a": ["x"]}`. -/
def stringsPayload : ProcessedPayload smallDuck :=
  .ofRows smallDuck [.obj [(bytes "a", .arr [.str (bytes "x")])]]
    [{ name := bytes "a", path := [bytes "a"], type := .list .VARCHAR, node := [0] }] rfl rfl

/-- A table of numbers, which took the numbers twice, takes the strings as
absorbed; the schema step it skips would have widened the list, and the string
is stored as NULL. -/
theorem treatedAsAbsorbed_strings :
    ∃ s table s' token table',
      Reachable (cacheSystem smallEnv) (payloadsIn {numbersPayload, stringsPayload}) s ∧
      FoldInjective {numbersPayload, stringsPayload} ∧
      TreatedAsAbsorbed smallEnv s stringsPayload table ∧
      computeDelta table.columns stringsPayload.columns = ([], true) ∧
      cacheStep smallEnv s (.ingest stringsPayload) = some s' ∧
      s'.ingestor.db.table = some (token, table') ∧
      table'.cellAt 2 (bytes "a") = some (.list [.null]) := by
  have hreach : Reachable (cacheSystem smallEnv) (payloadsIn {numbersPayload, stringsPayload}) _ :=
    .step (.step .init (a := .ingest numbersPayload) (.inl rfl) rfl)
      (a := .ingest numbersPayload) (.inl rfl) rfl
  have hfold : FoldInjective {numbersPayload, stringsPayload} :=
    injOn_fnvFold_of_eq [97, 101] (by rintro p (rfl | rfl) <;> rfl)
  exact ⟨_, _, _, _, _, hreach, hfold, ⟨0, _, rfl, by decide, rfl, rfl⟩, rfl, rfl, rfl, rfl⟩

/-- The numbers on their own: taken as absorbed the second time, rightly. -/
theorem treatedAsAbsorbed_numbers :
    ∃ s table, FoldInjective {numbersPayload} ∧
      Reachable (cacheSystem smallEnv) (payloadsIn {numbersPayload}) s ∧
      TreatedAsAbsorbed smallEnv s numbersPayload table ∧
      computeDelta table.columns numbersPayload.columns = ([], false) := by
  have hreach : Reachable (cacheSystem smallEnv) (payloadsIn {numbersPayload}) _ :=
    .step (.step .init (a := .ingest numbersPayload) rfl rfl)
      (a := .ingest numbersPayload) rfl rfl
  have hfold : FoldInjective {numbersPayload} :=
    injOn_fnvFold_of_eq [97, 101] (by rintro p rfl; rfl)
  have hsuff : SignaturesSuffice {numbersPayload} := by
    rintro _ rfl _ rfl - - c hc
    exact ⟨c, hc, rfl, joinColumnTypes_self _⟩
  have hright := (treatedAsAbsorbed_iff smallEnv {numbersPayload} hfold).mpr hsuff _ hreach
    numbersPayload rfl
  exact ⟨_, _, hfold, hreach, ⟨0, _, rfl, by decide, rfl, rfl⟩,
    (hright _ ⟨0, _, rfl, by decide, rfl, rfl⟩).1⟩

end RawDuck
