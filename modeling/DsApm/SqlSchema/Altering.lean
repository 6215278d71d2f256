import DsApm.SqlSchema.OneTable
/-!
# Altering — a migration where the engine can alter everything

Constraints are dropped by name, columns are dropped with the keys that use them, and new constraints need names that are
free.  Until the keys are created nothing fails; `keyed_exactly` gives the table then, and says that creating them succeeds
exactly when it is one the engine can hold.
-/
namespace DsApm
namespace SqlSchema
namespace Operator

open List Option

variable {operator : Operator} {us : List UniqueConstraint} {oldTable newTable : Table}

/-- The script has brought the database to the table in memory with these keys, and to no indexes. -/
structure At (operator : Operator) (db : Database) (s : Script) (pk : Option (String × List ColumnName))
    (fks : List (String × ForeignKeyDef)) (uniques : List (String × List ColumnName)) : Prop where
  run : runAll operator.support s.sql db = some ⟨[described operator.fmter s.table pk fks uniques], []⟩
  wellFormed : (described operator.fmter s.table pk fks uniques).WellFormed operator.support

variable {db : Database} {s : Script} {pk : Option (String × List ColumnName)} {fks : List (String × ForeignKeyDef)}
  {uniques : List (String × List ColumnName)}

theorem At.add {pk' : Option (String × List ColumnName)}
    {fks' : List (String × ForeignKeyDef)} {uniques' : List (String × List ColumnName)} {r : Table × List Stmt}
    (h : At operator db s pk fks uniques)
    (hrun : runAll operator.support r.2 ⟨[described operator.fmter s.table pk fks uniques], []⟩ =
      some ⟨[described operator.fmter r.1 pk' fks' uniques'], []⟩)
    (hwf : (described operator.fmter r.1 pk' fks' uniques').WellFormed operator.support) :
    At operator db (s.add r) pk' fks' uniques' := by
  refine ⟨(runAll_append _ _ _).trans ?_, hwf⟩
  rw [h.run, bind_some]
  exact hrun

/-! ## Dropping constraints -/

variable {t : TableSchema}

theorem apply_dropConstraint (hsup : operator.support = .all) (ht : t.WellFormed operator.support)
    (name : String) : (Stmt.dropConstraint t.name name).apply operator.support ⟨[t], []⟩ =
        some ⟨[t.withoutConstraint name], []⟩ ∧
      (t.withoutConstraint name).WellFormed operator.support := by
  have hcreate := creates_of_all hsup
  have hwf : (t.withoutConstraint name).WellFormed operator.support := by
    refine ht.of_keys ?_ filter_sublist filter_sublist rfl
    unfold TableSchema.withoutConstraint
    cases t.primaryKey with
    | none => exact Or.inl rfl
    | some pk =>
      simp only [filter_some]
      split
      · exact Or.inl rfl
      · exact Or.inr rfl
  refine ⟨?_, hwf⟩
  simp only [Stmt.apply]
  rw [if_pos hcreate, alter_single, bind_some, if_pos hwf]

theorem names_of_wellFormed (hsup : operator.support = .all) {table : Table}
    (h : (described operator.fmter table pk fks uniques).WellFormed operator.support) :
    (pk.toList.map Prod.fst ++ fks.map Prod.fst ++ uniques.map Prod.fst).Nodup :=
  h.2.2.1 (by rw [hsup]; rfl)

theorem filter_name_eq_self {α : Type} {l : List (String × α)} {name : String} (h : name ∉ l.map Prod.fst) :
    l.filter (fun x => x.1 != name) = l :=
  filter_eq_self.2 (fun x hx => by simpa using fun hn => h (List.mem_map.2 ⟨x, hx, hn⟩))

theorem filter_key_eq_self {α : Type} {o : Option (String × α)} {name : String} (h : name ∉ o.toList.map Prod.fst) :
    o.filter (fun x => x.1 != name) = o := by
  cases o with
  | none => rfl
  | some x =>
    have hne : x.1 ≠ name := fun hn => h (by simp [hn])
    simp [filter_some, hne]

theorem dropPrimaryKey_at (hsup : operator.support = .all)
    (hwf : (oldTable.schema operator.fmter us).WellFormed operator.support) :
    At operator (oldTable.database operator.fmter us) (operator.dropPrimaryKey us newTable ⟨oldTable, []⟩)
      (namedKey oldTable.name (if keepsPrimaryKey oldTable newTable then oldTable.primaryKeyConstraint else none))
      (namedForeignKeys oldTable.name oldTable.foreignKeyConstraints) (namedUniques oldTable.name us) := by
  have hcreate := creates_of_all hsup
  have hstart : At operator (oldTable.database operator.fmter us) ⟨oldTable, []⟩
      (namedKey oldTable.name oldTable.primaryKeyConstraint)
      (namedForeignKeys oldTable.name oldTable.foreignKeyConstraints) (namedUniques oldTable.name us) := ⟨rfl, hwf⟩
  have hdrop : ∀ pk, oldTable.primaryKeyConstraint = some pk →
      At operator (oldTable.database operator.fmter us)
        (Script.add ⟨oldTable, []⟩ (operator.dropConstraint oldTable us (.primaryKey pk))) none
        (namedForeignKeys oldTable.name oldTable.foreignKeyConstraints) (namedUniques oldTable.name us) := by
    intro pk hpk
    have hnames := names_of_wellFormed hsup hstart.wellFormed
    have hkey : namedKey oldTable.name oldTable.primaryKeyConstraint = some (pk.nameIn oldTable.name, pk.columnNames) := by
      rw [hpk]; rfl
    rw [hkey] at hnames hstart
    simp only [toList_some, map_cons, map_nil, cons_append, nodup_cons,
      mem_append, not_or] at hnames
    obtain ⟨happly, hwf'⟩ := apply_dropConstraint hsup hstart.wellFormed (pk.nameIn oldTable.name)
    have hwithout : (described operator.fmter oldTable (some (pk.nameIn oldTable.name, pk.columnNames))
        (namedForeignKeys oldTable.name oldTable.foreignKeyConstraints)
        (namedUniques oldTable.name us)).withoutConstraint (pk.nameIn oldTable.name) =
        described operator.fmter { oldTable with primaryKeyConstraint := none } none
          (namedForeignKeys oldTable.name oldTable.foreignKeyConstraints) (namedUniques oldTable.name us) := by
      unfold TableSchema.withoutConstraint described
      simp only [filter_name_eq_self hnames.1.1.2, filter_name_eq_self hnames.1.2, filter_some, bne_self_eq_false,
        Bool.false_eq_true, if_false]
    rw [hwithout] at happly hwf'
    rw [dropConstraint_primaryKey operator us hpk, if_pos hcreate]
    refine hstart.add ?_ hwf'
    exact (runAll_singleton _ _).trans happly
  unfold dropPrimaryKey keepsPrimaryKey
  cases hpk : oldTable.primaryKeyConstraint with
  | none => rw [hpk] at hstart; exact hstart
  | some pk =>
    cases hnew : newTable.primaryKeyConstraint with
    | none => exact hdrop pk hpk
    | some newPk =>
      simp only
      by_cases heq : pk.equals newPk = true
      · rw [if_pos heq, if_pos heq, ← hpk]; exact hstart
      · rw [if_neg heq, if_neg heq]; exact hdrop pk hpk

variable {base : TableName}

theorem filter_foreignKeys {fks : List ForeignKeyConstraint} {fk found : ForeignKeyConstraint}
    (hnodup : ((namedForeignKeys base fks).map Prod.fst).Nodup) (hfind : fks.find? fk.equals = some found) :
    (namedForeignKeys base fks).filter (fun x => x.1 != found.nameIn base) = namedForeignKeys base (fks.eraseP fk.equals) := by
  obtain ⟨hp, as, bs, rfl, has⟩ := List.find?_eq_some_iff_append.1 hfind
  have herase : (as ++ found :: bs).eraseP fk.equals = as ++ bs := by
    rw [eraseP_append_right _ (fun x hx => by simpa using has x hx), eraseP_cons_of_pos hp]
  rw [herase]
  unfold namedForeignKeys at hnodup ⊢
  simp only [map_append, map_cons, List.map_map, filter_append] at hnodup ⊢
  have hmid := nodup_middle.1 hnodup
  rw [nodup_cons, mem_append, not_or] at hmid
  rw [filter_cons_of_neg (by simp), filter_name_eq_self, filter_name_eq_self]
  · rw [List.map_map]; exact hmid.1.2
  · rw [List.map_map]; exact hmid.1.1

theorem dropForeignKeys_at (hsup : operator.support = .all)
    (hbase : s.table.name = base)
    (h : At operator db s pk (namedForeignKeys base s.table.foreignKeyConstraints) uniques) :
    At operator db (operator.dropForeignKeys us newTable s) pk
      (namedForeignKeys base (operator.dropForeignKeys us newTable s).table.foreignKeyConstraints) uniques := by
  have hcreate := creates_of_all hsup
  unfold dropForeignKeys
  refine (GoSlice.rangeOver_inv (P := fun s' : Script => s'.table.name = base ∧
    At operator db s' pk (namedForeignKeys base s'.table.foreignKeyConstraints) uniques)
    (fun s' fk hs' => ?_) ⟨hbase, h⟩).2
  obtain ⟨hname, hat⟩ := hs'
  unfold dropForeignKeyPass
  split
  · cases hfind : s'.table.foreignKeyConstraints.find? fk.equals with
    | none =>
      rw [dropConstraint_foreignKey_absent operator us hfind]
      refine ⟨hname, ?_⟩
      have hsame : s'.add (s'.table, []) = s' := by unfold Script.add; rw [append_nil]
      rw [hsame]; exact hat
    | some found =>
      have hnames := names_of_wellFormed hsup hat.wellFormed
      have hin : found.nameIn base ∈
          (namedForeignKeys base s'.table.foreignKeyConstraints).map Prod.fst :=
        List.mem_map.2 ⟨_, List.mem_map_of_mem (mem_of_find?_eq_some hfind), rfl⟩
      have hpk : found.nameIn base ∉ pk.toList.map Prod.fst := fun hp =>
        (nodup_append.1 (nodup_append.1 hnames).1).2.2 _ hp _ hin rfl
      have hun : found.nameIn base ∉ uniques.map Prod.fst := fun hu =>
        (nodup_append.1 hnames).2.2 _ (mem_append_right _ hin) _ hu rfl
      obtain ⟨happly, hwf'⟩ := apply_dropConstraint hsup hat.wellFormed (found.nameIn base)
      have hwithout : (described operator.fmter s'.table pk
          (namedForeignKeys base s'.table.foreignKeyConstraints) uniques).withoutConstraint
            (found.nameIn base) =
          described operator.fmter
            { s'.table with foreignKeyConstraints := s'.table.foreignKeyConstraints.eraseP fk.equals } pk
            (namedForeignKeys base (s'.table.foreignKeyConstraints.eraseP fk.equals)) uniques := by
        unfold TableSchema.withoutConstraint described
        simp only [filter_key_eq_self hpk, filter_name_eq_self hun,
          filter_foreignKeys (nodup_append.1 (nodup_append.1 hnames).1).2.1 hfind]
      rw [hwithout] at happly hwf'
      rw [dropConstraint_foreignKey operator us hfind, if_pos hcreate]
      refine ⟨hname, hat.add ((runAll_singleton _ _).trans ?_) hwf'⟩
      unfold Constraint.toDropSQL Constraint.nameIn
      simp only [hname]
      rw [← hname] at happly ⊢
      exact happly
  · exact ⟨hname, hat⟩

def leftUniques (base : TableName) (us : List UniqueConstraint) : List UniqueConstraint :=
  us.filter (fun v => v.nameIn base ∉ us.map (fun u => (foundIn us u).nameIn base))

theorem filter_uniques (base : TableName) (us : List UniqueConstraint) (dropped : List String) (name : String) :
    (namedUniques base (us.filter (fun v => v.nameIn base ∉ dropped))).filter (fun x => x.1 != name) =
      namedUniques base (us.filter (fun v => v.nameIn base ∉ dropped ++ [name])) := by
  unfold namedUniques
  rw [List.filter_map, List.filter_filter]
  congr 1
  refine filter_congr (fun v _ => ?_)
  rw [Bool.eq_iff_iff]
  simp [and_comm]

theorem dropUniques_at (hsup : operator.support = .all)
    (hbase : s.table.name = base)
    (h : At operator db s pk fks (namedUniques base us)) :
    At operator db (operator.dropUniques us s) pk fks (namedUniques base (leftUniques base us)) := by
  have hcreate := creates_of_all hsup
  have hnames := names_of_wellFormed hsup h.wellFormed
  have hfree : ∀ u ∈ us, u.nameIn base ∉ pk.toList.map Prod.fst ∧ u.nameIn base ∉ fks.map Prod.fst := by
    intro u hu
    have hin : u.nameIn base ∈ (namedUniques base us).map Prod.fst :=
      List.mem_map.2 ⟨_, List.mem_map_of_mem hu, rfl⟩
    have hdis := (nodup_append.1 hnames).2.2
    exact ⟨fun hp => hdis _ (mem_append_left _ hp) _ hin rfl, fun hf => hdis _ (mem_append_right _ hf) _ hin rfl⟩
  have hfold : ∀ (l : List UniqueConstraint), (∀ u ∈ l, u ∈ us) → ∀ (s' : Script) (dropped : List String),
      s'.table.name = base →
      At operator db s' pk fks (namedUniques base (us.filter (fun v => v.nameIn base ∉ dropped))) →
      At operator db (l.foldl (fun s u => s.add (operator.dropConstraint s.table us (.unique u))) s') pk fks
        (namedUniques base (us.filter (fun v =>
          v.nameIn base ∉ dropped ++ l.map (fun u => (foundIn us u).nameIn base)))) := by
    intro l
    induction l with
    | nil => intro _ s' dropped _ hat; simpa using hat
    | cons u l ih =>
      intro hl s' dropped hname hat
      obtain ⟨i, hi, hfound⟩ := findIdx?_foundIn (hl u mem_cons_self)
      have hin : foundIn us u ∈ us := mem_of_getElem? hfound
      obtain ⟨happly, hwf'⟩ := apply_dropConstraint hsup hat.wellFormed ((foundIn us u).nameIn base)
      have hwithout : ∀ uniques, (described operator.fmter s'.table pk fks uniques).withoutConstraint
          ((foundIn us u).nameIn base) = described operator.fmter s'.table pk fks
            (uniques.filter (fun x => x.1 != (foundIn us u).nameIn base)) := by
        intro uniques
        unfold TableSchema.withoutConstraint described
        simp only [filter_key_eq_self (hfree _ hin).1, filter_name_eq_self (hfree _ hin).2]
      rw [hwithout, filter_uniques] at happly hwf'
      rw [foldl_cons, dropConstraint_unique operator us hi hfound, if_pos hcreate, map_cons,
        append_cons]
      refine ih (fun v hv => hl v (mem_cons_of_mem _ hv)) _ _ hname (hat.add ((runAll_singleton _ _).trans ?_) hwf')
      unfold Constraint.toDropSQL Constraint.nameIn
      simp only [hname]
      rw [← hname] at happly ⊢
      exact happly
  have hall := hfold us (fun _ hu => hu) s [] hbase (by simpa using h)
  rw [nil_append] at hall
  exact hall

theorem leftUniques_eq_nil_iff (hnodup : (us.map (fun u => u.nameIn base)).Nodup) :
    leftUniques base us = [] ↔ us.Pairwise (fun earlier later => earlier.equals later = false) := by
  have hfirst : ∀ v, ∀ hv : v ∈ us, ∃ i, ∃ hi : i < us.length, foundIn us v = us[i] ∧ us[i].equals v = true ∧
      ∀ j, ∀ hj : j < i, us[j].equals v = false := by
    intro v hv
    obtain ⟨i, hi, hfound⟩ := findIdx?_foundIn hv
    obtain ⟨hlt, hp, hmin⟩ := List.findIdx?_eq_some_iff_getElem.1 hi
    rw [List.getElem?_eq_getElem hlt] at hfound
    exact ⟨i, hlt, (Option.some.inj hfound).symm, hp, fun j hj => by simpa using hmin j hj⟩
  unfold leftUniques
  rw [filter_eq_nil_iff, pairwise_iff_getElem]
  simp only [decide_eq_true_eq, not_not]
  constructor
  · intro hall i j hi hj hij
    by_contra hcon
    have hcon' : us[i].equals us[j] = true := by simpa using hcon
    obtain ⟨v, hv, hname⟩ := List.mem_map.1 (hall us[j] (getElem_mem hj))
    obtain ⟨k, hk, hfound, hp, hmin⟩ := hfirst v hv
    -- the constraint found has the name of the later one, so it is that one; but the earlier one has its columns too
    have hkj : k = j := by
      rw [hfound] at hname
      refine (List.getElem?_inj (by rwa [List.length_map]) hnodup).1 ?_
      rw [List.getElem?_map, List.getElem?_map, List.getElem?_eq_getElem hk, List.getElem?_eq_getElem hj]
      exact congrArg some hname
    subst hkj
    have hearly := hmin i hij
    rw [UniqueConstraint.equals_iff.2 (fun c hc => UniqueConstraint.equals_iff.1 hcon' c
      (UniqueConstraint.equals_iff.1 hp c hc))] at hearly
    cases hearly
  · intro hpair u hu
    refine List.mem_map.2 ⟨u, hu, ?_⟩
    obtain ⟨j, hj, rfl⟩ := getElem_of_mem hu
    obtain ⟨k, hk, hfound, hp, hmin⟩ := hfirst _ hu
    rcases Nat.lt_trichotomy k j with hlt | heq | hgt
    · rw [hpair k j hk hj hlt] at hp; cases hp
    · subst heq; rw [hfound]
    · have hself := hmin j hgt
      rw [UniqueConstraint.equals_iff.2 (fun c hc => hc)] at hself
      cases hself

theorem dropped_at (hsup : operator.support = .all)
    (hwf : (oldTable.schema operator.fmter us).WellFormed operator.support) :
    At operator (oldTable.database operator.fmter us) (operator.dropped us newTable oldTable)
      (namedKey oldTable.name (if keepsPrimaryKey oldTable newTable then oldTable.primaryKeyConstraint else none))
      (namedForeignKeys oldTable.name (operator.dropped us newTable oldTable).table.foreignKeyConstraints)
      (namedUniques oldTable.name (leftUniques oldTable.name us)) := by
  have hname : (operator.dropPrimaryKey us newTable ⟨oldTable, []⟩).table.name = oldTable.name := by
    rw [dropPrimaryKey_table]
  have hname' : (operator.dropForeignKeys us newTable (operator.dropPrimaryKey us newTable ⟨oldTable, []⟩)).table.name =
      oldTable.name := by rw [(dropForeignKeys_frame operator us newTable _).1]; exact hname
  have hpk : At operator (oldTable.database operator.fmter us) (operator.dropPrimaryKey us newTable ⟨oldTable, []⟩)
      (namedKey oldTable.name (if keepsPrimaryKey oldTable newTable then oldTable.primaryKeyConstraint else none))
      (namedForeignKeys oldTable.name
        (operator.dropPrimaryKey us newTable ⟨oldTable, []⟩).table.foreignKeyConstraints)
      (namedUniques oldTable.name us) := by
    rw [dropPrimaryKey_table]
    exact dropPrimaryKey_at hsup hwf
  have huniques := dropUniques_at hsup hname' (dropForeignKeys_at hsup hname hpk)
  have htable := dropUniques_table operator us
    (operator.dropForeignKeys us newTable (operator.dropPrimaryKey us newTable ⟨oldTable, []⟩))
  unfold dropped
  rw [htable]
  exact huniques

/-! ## Dropping columns -/

theorem wellFormed_withoutColumn (hsup : operator.support = .all) (ht : t.WellFormed operator.support)
    (name : ColumnName) : (t.withoutColumn operator.support name).WellFormed operator.support := by
  have hcreate := creates_of_all hsup
  have hmem : ∀ c ∈ t.columnNames, c ≠ name → c ∈ (t.withoutColumn operator.support name).columnNames :=
    fun c hc hne => mem_columnNames_withoutColumn hc hne
  obtain ⟨hnodup, ⟨hp, hf, hq⟩, hnames, _⟩ := ht
  unfold TableSchema.withoutColumn at hmem ⊢
  rw [if_pos hcreate] at hmem ⊢
  refine ⟨hnodup.sublist (filter_sublist.map _), ⟨?_, ?_, ?_⟩, fun _ => ?_, fun h => ?_⟩
  · intro pk hpk c hc
    obtain ⟨hpk, hnot⟩ := mem_filter_iff.1 hpk
    exact hmem c (hp pk hpk c hc) (fun h => by rw [← h] at hnot; simp [hc] at hnot)
  · intro fk hfk
    obtain ⟨hfk, hnot⟩ := mem_filter.1 hfk
    exact hmem _ (hf fk hfk) (by simpa using hnot)
  · intro u hu c hc
    obtain ⟨hu, hnot⟩ := mem_filter.1 hu
    exact hmem c (hq u hu c hc) (fun h => by rw [← h] at hnot; simp [hc] at hnot)
  · refine (hnames hcreate).sublist ?_
    unfold TableSchema.constraintNames
    refine ((List.Sublist.map _ ?_).append (filter_sublist.map _)).append (filter_sublist.map _)
    cases t.primaryKey with
    | none => exact List.Sublist.refl _
    | some pk =>
      simp only [filter_some]
      split
      · exact List.Sublist.refl _
      · exact nil_sublist _
  · rw [hcreate] at h; cases h

theorem dropColumns_at (hsup : operator.support = .all) (h : At operator db s pk fks uniques)
    (hfks : ∀ fk ∈ fks, fk.2.referencingColumnName ∈ newTable.columnNames)
    (huniques : ∀ u ∈ uniques, ∀ c ∈ u.2, c ∈ newTable.columnNames) :
    ∃ pk', At operator db (operator.dropColumns newTable s) pk' fks uniques ∧
      (pk' = pk ∨ (pk' = none ∧ ∃ p ∈ pk, ∃ c ∈ p.2, c ∉ newTable.columnNames)) := by
  unfold dropColumns
  refine GoSlice.rangeOver_inv (P := fun s' : Script => ∃ pk', At operator db s' pk' fks uniques ∧
    (pk' = pk ∨ (pk' = none ∧ ∃ p ∈ pk, ∃ c ∈ p.2, c ∉ newTable.columnNames))) (fun s' c hs' => ?_) ⟨pk, h, Or.inl rfl⟩
  obtain ⟨pk', hat, hcase⟩ := hs'
  unfold dropColumnPass
  split
  · rename_i hlacks
    have hlacks' : c.name ∉ newTable.columnNames := findColumnByName_isNone.1 hlacks
    cases hfind : findColumnByName s'.table c.name with
    | none =>
      have hsame : s'.add (operator.dropColumn s'.table c) = s' := by
        unfold dropColumn Script.add
        rw [hfind]
        simp only [append_nil]
      rw [hsame]; exact ⟨pk', hat, hcase⟩
    | some i =>
      have hcn : (described operator.fmter s'.table pk' fks uniques).columnNames = s'.table.columnNames :=
        columnNames_described _ _ _ _ _
      have hin : c.name ∈ (described operator.fmter s'.table pk' fks uniques).columnNames := by
        rw [hcn]
        by_contra hn
        rw [findColumnByName_eq_none hn] at hfind; cases hfind
      have hcreate := creates_of_all hsup
      have hwf' := wellFormed_withoutColumn hsup hat.wellFormed c.name
      have hwithout : (described operator.fmter s'.table pk' fks uniques).withoutColumn operator.support c.name =
          described operator.fmter { s'.table with columns := s'.table.columns.eraseP (fun d => d.name == c.name) }
            (pk'.filter (fun p => !p.2.contains c.name)) fks uniques := by
        have hf : fks.filter (fun fk => fk.2.referencingColumnName != c.name) = fks :=
          filter_eq_self.2 (fun fk hfk => by
            have hne : fk.2.referencingColumnName ≠ c.name := fun he => hlacks' (he ▸ hfks fk hfk)
            simpa using hne)
        have hu : uniques.filter (fun u => !u.2.contains c.name) = uniques :=
          filter_eq_self.2 (fun u hu => by
            have hne : c.name ∉ u.2 := fun he => hlacks' (huniques u hu _ he)
            simpa using hne)
        have hnodup : s'.table.columnNames.Nodup := hcn ▸ hat.wellFormed.1
        unfold TableSchema.withoutColumn described
        rw [if_pos hcreate, eraseP_eq_filter hnodup]
        simp only [hf, hu, map_filter_name]
      have hdrop : operator.dropColumn s'.table c =
          ({ s'.table with columns := s'.table.columns.eraseP (fun d => d.name == c.name) },
            [.dropColumn s'.table.name operator.support.sAlterTableAddAndDropColumnIfNotExistsAndExists c.name]) := by
        unfold dropColumn; rw [hfind]
      have happly : (Stmt.dropColumn s'.table.name operator.support.sAlterTableAddAndDropColumnIfNotExistsAndExists
          c.name).apply operator.support ⟨[described operator.fmter s'.table pk' fks uniques], []⟩ =
          some ⟨[(described operator.fmter s'.table pk' fks uniques).withoutColumn operator.support c.name], []⟩ := by
        have halter : Database.alter operator.support ⟨[described operator.fmter s'.table pk' fks uniques], []⟩
            s'.table.name (fun t => if c.name ∈ t.columnNames then some (t.withoutColumn operator.support c.name)
              else (if operator.support.sAlterTableAddAndDropColumnIfNotExistsAndExists then some t else none)) =
            some ⟨[(described operator.fmter s'.table pk' fks uniques).withoutColumn operator.support c.name], []⟩ := by
          refine (alter_single (described operator.fmter s'.table pk' fks uniques) [] _).trans ?_
          rw [if_pos hin, bind_some, if_pos hwf']
        have hindexed : Database.indexed ⟨[described operator.fmter s'.table pk' fks uniques], []⟩ s'.table.name c.name =
            false := rfl
        simp only [Stmt.apply, hindexed, Bool.and_not_self, Bool.false_and, Bool.false_eq_true, if_false]
        rw [halter]; rfl
      rw [hwithout] at happly hwf'
      rw [hdrop]
      refine ⟨_, hat.add ((runAll_singleton _ _).trans happly) hwf', ?_⟩
      cases hp : pk' with
      | none =>
        rw [hp] at hcase
        exact hcase
      | some p =>
        simp only [filter_some]
        rw [hp] at hcase
        have hpk : some p = pk := hcase.resolve_right (fun hn => by cases hn.1)
        split
        · exact Or.inl hpk
        · rename_i hcon
          refine Or.inr ⟨rfl, p, hpk ▸ rfl, c.name, ?_, hlacks'⟩
          simpa using hcon
  · exact ⟨pk', hat, hcase⟩

/-! ## The columns asked for -/

theorem setColumn_append {d : ColumnDef} (h : d.name ∉ t.columnNames) (f : ColumnDef → ColumnDef) :
    TableSchema.setColumn d.name f { t with columns := t.columns ++ [d] } = { t with columns := t.columns ++ [f d] } := by
  have hid : t.columns.map (fun c => if c.name = d.name then f c else c) = t.columns := by
    refine (map_congr_left (fun c hc => ?_)).trans (List.map_id _)
    rw [if_neg (fun hn => h (List.mem_map.2 ⟨c, hc, hn⟩))]; rfl
  unfold TableSchema.setColumn
  simp only [map_append, map_singleton, hid, if_true]

theorem apply_setNotNull (hsup : operator.support = .all) (ht : t.WellFormed operator.support)
    {name : ColumnName} (h : name ∈ t.columnNames) :
    (Stmt.setNotNull t.name name).apply operator.support ⟨[t], []⟩ =
      some ⟨[t.setColumn name (fun c => { c with nullable := false })], []⟩ :=
  alterColumn_single (by rw [hsup]; rfl) ht (fun _ => rfl) h

theorem addColumn_at (hsup : operator.support = .all) (h : At operator db s pk fks uniques) {column : Column}
    (hnot : column.name ∉ s.table.columnNames) :
    At operator db (s.add (operator.addColumn s.table us column none)) pk fks uniques := by
  obtain ⟨d, hname, hsql, hplain, hnullable⟩ := toAddSQL_eq operator.fmter column s.table.name
    operator.support.sAlterTableAddAndDropColumnIfNotExistsAndExists
  have halter : operator.support.sAlterTableAlterColumnSetAndDrop = true := by rw [hsup]; rfl
  have hfree : d.name ∉ (described operator.fmter s.table pk fks uniques).columnNames := by
    rw [columnNames_described, hname]; exact hnot
  obtain ⟨hadd, hwf⟩ := apply_addColumn h.wellFormed [] hfree
  generalize ht : described operator.fmter s.table pk fks uniques = t at hadd hwf hfree
  have htname : s.table.name = t.name := by rw [← ht]; rfl
  have hdone : described operator.fmter { s.table with columns := s.table.columns ++ [column] } pk fks uniques =
      { t with columns := t.columns ++ [column.toDefinitionSQL operator.fmter] } := by
    rw [← ht]
    unfold described
    simp only [map_append, map_singleton]
  have hin : column.name ∈ TableSchema.columnNames { t with columns := t.columns ++ [d] } := by
    unfold TableSchema.columnNames
    simp [hname]
  rw [addColumn_absent operator us hnot, hsql, halter, if_pos rfl]
  refine h.add ?_ ?_
  · rw [hdone, ht, htname]
    cases hn : column.nullable with
    | true =>
      rw [if_neg (fun h => by cases h.1), if_neg (by simp), append_nil, append_nil]
      refine (runAll_singleton _ _).trans ?_
      rw [hadd, hplain (Or.inl hn)]
    | false =>
      have hset : (Stmt.setNotNull t.name column.name).apply operator.support
          ⟨[{ t with columns := t.columns ++ [d] }], []⟩ =
          some ⟨[{ t with columns := t.columns ++ [column.toDefinitionSQL operator.fmter] }], []⟩ := by
        refine (apply_setNotNull hsup hwf hin).trans ?_
        rw [← hname, setColumn_append hfree, ← hnullable, hn]
      have hupdate : runAll operator.support (if false = false ∧ column.default = "" then
          [.update t.name column.name (.zero column.dataType.z)] else [])
          ⟨[{ t with columns := t.columns ++ [d] }], []⟩ = some ⟨[{ t with columns := t.columns ++ [d] }], []⟩ := by
        split
        · refine (runAll_singleton _ _).trans ?_
          exact apply_update hin _
        · rfl
      rw [if_pos rfl, List.append_assoc, runAll_append, runAll_singleton, hadd, bind_some, runAll_append, hupdate,
        bind_some, runAll_singleton, hset]
  · have hsame : TableSchema.columnNames { t with columns := t.columns ++ [column.toDefinitionSQL operator.fmter] } =
        TableSchema.columnNames { t with columns := t.columns ++ [d] } := by
      unfold TableSchema.columnNames
      simp only [map_append, map_singleton, hname]
      rfl
    rw [hdone]
    refine hwf.of_columns rfl rfl rfl (fun c hc => ?_) ?_ ?_
    · rw [hsame]; exact hc
    · rw [hsame]; exact hwf.1
    · exact append_ne_nil_of_right_ne_nil _ (cons_ne_nil _ _)

theorem addColumns_at (hsup : operator.support = .all) (h : At operator db s pk fks uniques) :
    At operator db (operator.addColumns us newTable s) pk fks uniques := by
  unfold addColumns
  refine List.foldlRecOn newTable.columns _ (motive := fun s' : Script => At operator db s' pk fks uniques) h
    (fun s' hs' c _ => ?_)
  split
  · rename_i hnone
    exact addColumn_at hsup hs' (findColumnByName_isNone.1 hnone)
  · exact hs'

def withColumn (t : TableSchema) (x : ColumnDef) : TableSchema := t.setColumn x.name (fun c => { x with name := c.name })

theorem wellFormed_withColumn (ht : t.WellFormed operator.support) (x : ColumnDef) :
    (withColumn t x).WellFormed operator.support := wellFormed_setColumn ht (fun _ => rfl)

theorem withColumn_setColumn (t : TableSchema) {x : ColumnDef} {f : ColumnDef → ColumnDef} (hf : ∀ c, (f c).name = c.name) :
    (withColumn t x).setColumn x.name f = withColumn t (f x) := by
  unfold withColumn TableSchema.setColumn
  simp only [List.map_map, hf x]
  congr 1
  refine map_congr_left (fun c _ => ?_)
  simp only [Function.comp]
  by_cases hc : c.name = x.name
  · have hx : ({ x with name := c.name } : ColumnDef) = x := by rw [hc]
    have hfx : ({ f x with name := c.name } : ColumnDef) = f x := by rw [hc, ← hf x]
    rw [if_pos hc, if_pos hc, hx, if_pos hc]
    exact hfx.symm
  · rw [if_neg hc, if_neg hc, if_neg hc]

theorem setAttribute_run (hsup : operator.support = .all) (ht : t.WellFormed operator.support)
    {x : ColumnDef} (hin : x.name ∈ t.columnNames) {f : ColumnDef → ColumnDef} (hf : ∀ c, (f c).name = c.name)
    (differs : Prop) [Decidable differs] (stmt : Stmt)
    (hstmt : ∀ db, stmt.apply operator.support db = db.alterColumn operator.support t.name x.name f)
    (hsame : ¬ differs → f x = x) :
    runAll operator.support (if differs then [stmt] else []) ⟨[withColumn t x], []⟩ = some ⟨[withColumn t (f x)], []⟩ := by
  by_cases hd : differs
  · have hcn : (withColumn t x).columnNames = t.columnNames := columnNames_setColumn (f := fun c => { x with name := c.name }) (fun _ => rfl) t
    rw [if_pos hd, runAll_singleton, hstmt]
    refine (alterColumn_single (t := withColumn t x) (by rw [hsup]; rfl) (wellFormed_withColumn ht x) hf ?_).trans ?_
    · rw [hcn]; exact hin
    · rw [withColumn_setColumn t hf]
  · rw [if_neg hd, hsame hd]; rfl

theorem alterColumnSQL_run (hsup : operator.support = .all) (ht : t.WellFormed operator.support)
    {oldColumn column : Column} (hname : oldColumn.name = column.name) (hin : column.name ∈ t.columnNames) :
    runAll operator.support (operator.alterColumnSQL t.name oldColumn column)
        ⟨[withColumn t (oldColumn.toDefinitionSQL operator.fmter)], []⟩ =
      some ⟨[withColumn t (column.toDefinitionSQL operator.fmter)], []⟩ := by
  have hdone : column.toDefinitionSQL operator.fmter = { oldColumn.toDefinitionSQL operator.fmter with
      sqlType := operator.fmter.sqlDataTypeOf column.dataType, nullable := column.nullable, default := column.default } := by
    unfold Column.toDefinitionSQL
    rw [hname]
  have hdef : (oldColumn.toDefinitionSQL operator.fmter).name = column.name := hname
  have hin' : (oldColumn.toDefinitionSQL operator.fmter).name ∈ t.columnNames := hdef ▸ hin
  have htype := setAttribute_run hsup ht (x := oldColumn.toDefinitionSQL operator.fmter) hin'
    (f := fun c => { c with sqlType := operator.fmter.sqlDataTypeOf column.dataType }) (fun _ => rfl)
    (oldColumn.dataType ≠ column.dataType)
    (.setDataType t.name column.name (operator.fmter.sqlDataTypeOf column.dataType))
    (fun db => by rw [hdef]; rfl) (fun h => by rw [← not_not.1 h]; rfl)
  have hnull := setAttribute_run hsup ht (x := { oldColumn.toDefinitionSQL operator.fmter with
      sqlType := operator.fmter.sqlDataTypeOf column.dataType }) hin'
    (f := fun c => { c with nullable := column.nullable }) (fun _ => rfl)
    (oldColumn.nullable ≠ column.nullable)
    (if column.nullable then .dropNotNull t.name column.name else .setNotNull t.name column.name)
    (fun db => by
      simp only [hdef]
      cases column.nullable with
      | true => rfl
      | false => rfl)
    (fun h => by rw [← not_not.1 h]; rfl)
  have hdefault := setAttribute_run hsup ht (x := { oldColumn.toDefinitionSQL operator.fmter with
      sqlType := operator.fmter.sqlDataTypeOf column.dataType, nullable := column.nullable }) hin'
    (f := fun c => { c with default := column.default }) (fun _ => rfl)
    (oldColumn.default ≠ column.default)
    (if column.default ≠ "" then .setDefault t.name column.name column.default
      else .dropDefault t.name column.name)
    (fun db => by
      simp only [hdef]
      by_cases hd : column.default = ""
      · rw [if_neg (fun h => h hd), hd]; rfl
      · rw [if_pos hd]; rfl)
    (fun h => by rw [← not_not.1 h]; rfl)
  unfold alterColumnSQL
  rw [runAll_append, runAll_append, htype, bind_some, hnull, bind_some, hdefault, hdone]

theorem alterColumn_at (hsup : operator.support = .all) (h : At operator db s pk fks uniques) (column : Column) :
    At operator db (s.add (operator.alterColumn s.table us column)) pk fks uniques := by
  have halter : operator.support.sAlterTableAlterColumnSetAndDrop = true := by rw [hsup]; rfl
  have hcn : (described operator.fmter s.table pk fks uniques).columnNames = s.table.columnNames :=
    columnNames_described _ _ _ _ _
  have hnodup : s.table.columnNames.Nodup := hcn ▸ h.wellFormed.1
  have hquiet : s.add (s.table, []) = s := by unfold Script.add; rw [append_nil]
  unfold alterColumn
  cases hfind : findColumnByName s.table column.name with
  | none => exact hquiet.symm ▸ h
  | some i =>
    have hlt : i < s.table.columns.length := (List.findIdx?_eq_some_iff_findIdx_eq.1 hfind).1
    have hget : s.table.columns[i]? = some s.table.columns[i] := List.getElem?_eq_getElem hlt
    have hname : s.table.columns[i].name = column.name := name_of_find hfind hget
    have hset : ∀ c : Column, c.name = column.name →
        described operator.fmter { s.table with columns := s.table.columns.set i c } pk fks uniques =
          withColumn (described operator.fmter s.table pk fks uniques) (c.toDefinitionSQL operator.fmter) := by
      intro c hc
      rw [set_findIdx? hnodup hfind c]
      unfold described withColumn TableSchema.setColumn
      simp only [List.map_map]
      congr 1
      refine map_congr_left (fun d _ => ?_)
      simp only [Function.comp]
      by_cases hd : d.name = column.name
      · have hd' : (d.toDefinitionSQL operator.fmter).name = (c.toDefinitionSQL operator.fmter).name := hd.trans hc.symm
        rw [if_pos hd, if_pos hd', hd']
      · have hd' : (d.toDefinitionSQL operator.fmter).name ≠ (c.toDefinitionSQL operator.fmter).name :=
          fun hn => hd (hn.trans hc)
        rw [if_neg hd, if_neg hd']
    have hin : column.name ∈ (described operator.fmter s.table pk fks uniques).columnNames := by
      rw [hcn, ← hname]
      exact List.mem_map_of_mem (getElem_mem hlt)
    have hold : described operator.fmter s.table pk fks uniques =
        withColumn (described operator.fmter s.table pk fks uniques)
          (s.table.columns[i].toDefinitionSQL operator.fmter) := by
      have hself := hset s.table.columns[i] hname
      rw [set_getElem_self] at hself
      exact hself
    have hrun := alterColumnSQL_run hsup h.wellFormed hname hin
    have hwf := wellFormed_withColumn h.wellFormed (column.toDefinitionSQL operator.fmter)
    rw [← hold, ← hset column rfl] at hrun
    rw [← hset column rfl] at hwf
    simp only [hget]
    split
    · exact hquiet.symm ▸ h
    · exact h.add hrun hwf

theorem modifyColumns_at (hsup : operator.support = .all) (h : At operator db s pk fks uniques) :
    At operator db (operator.modifyColumns us newTable s) pk fks uniques := by
  have halter : operator.support.sAlterTableAlterColumnSetAndDrop = true := by rw [hsup]; rfl
  -- the alterations are a script of their own, from the table as it is
  have hfold : At operator ⟨[described operator.fmter s.table pk fks uniques], []⟩ (newTable.columns.foldl
      (fun (s : Script) column => s.add (operator.alterColumn s.table us column)) ⟨s.table, []⟩) pk fks uniques := by
    refine List.foldlRecOn newTable.columns _ (motive := fun s' : Script =>
      At operator ⟨[described operator.fmter s.table pk fks uniques], []⟩ s' pk fks uniques) ⟨rfl, h.wellFormed⟩
      (fun s' hs' c _ => ?_)
    exact alterColumn_at hsup hs' c
  unfold modifyColumns
  generalize newTable.columns.foldl _ (⟨s.table, []⟩ : Script) = altered at hfold
  have hadd : At operator db ⟨altered.table, s.sql ++ altered.sql⟩ pk fks uniques :=
    h.add (r := (altered.table, altered.sql)) hfold.run hfold.wellFormed
  by_cases hnil : altered.sql = []
  · rw [hnil, append_nil] at hadd
    rw [if_pos hnil]
    exact hadd
  · rw [if_neg hnil, if_pos halter]
    exact hadd

/-- What dropping columns leaves of the primary key: the key goes with a column it uses. -/
def KeyLeft (oldTable newTable : Table) (pk : Option (String × List ColumnName)) : Prop :=
  let kept := namedKey oldTable.name (if keepsPrimaryKey oldTable newTable then oldTable.primaryKeyConstraint else none)
  pk = kept ∨ (pk = none ∧ ∃ p ∈ kept, ∃ c ∈ p.2, c ∉ newTable.columnNames)

theorem renamed_at (hsup : operator.support = .all)
    (hwf : (oldTable.schema operator.fmter us).WellFormed operator.support)
    (hfks : ∀ d ∈ (operator.dropped us newTable oldTable).table.foreignKeyDefs,
      d.referencingColumnName ∈ newTable.columnNames)
    (huniques : ∀ u ∈ us, ∀ c ∈ u.columnNames, c ∈ newTable.columnNames) :
    ∃ pk, At operator (oldTable.database operator.fmter us) (operator.renamed us newTable oldTable) pk
        (namedForeignKeys oldTable.name (operator.dropped us newTable oldTable).table.foreignKeyConstraints)
        (namedUniques oldTable.name (leftUniques oldTable.name us)) ∧
      KeyLeft oldTable newTable pk := by
  have hcreate := creates_of_all hsup
  have hreduce : operator.reduceDrops (operator.dropped us newTable oldTable) = operator.dropped us newTable oldTable := by
    unfold reduceDrops
    rw [if_neg (fun h => by rw [hcreate] at h; cases h.1)]
  have hdropped : At operator (oldTable.database operator.fmter us) (operator.dropped us newTable oldTable) _ _ _ :=
    dropped_at hsup hwf
  obtain ⟨pk, hat, hcase⟩ := dropColumns_at hsup hdropped
    (fun fk hfk => by
      obtain ⟨x, hx, rfl⟩ := List.mem_map.1 hfk
      exact hfks _ (List.mem_map_of_mem hx))
    (fun u hu c hc => by
      obtain ⟨v, hv, rfl⟩ := List.mem_map.1 hu
      exact huniques v (mem_filter.1 hv).1 c hc)
  have htrimmed : At operator (oldTable.database operator.fmter us) (operator.trimmed us newTable oldTable) pk
      (namedForeignKeys oldTable.name (operator.dropped us newTable oldTable).table.foreignKeyConstraints)
      (namedUniques oldTable.name (leftUniques oldTable.name us)) := by
    unfold trimmed
    rw [hreduce]
    exact hat
  have hfilled : At operator (oldTable.database operator.fmter us) (operator.filled us newTable oldTable) pk _ _ :=
    modifyColumns_at hsup (addColumns_at hsup htrimmed)
  refine ⟨pk, ?_, hcase⟩
  unfold renamed rename
  split
  · rename_i hne
    refine At.add hfilled ((runAll_singleton _ _).trans ?_) ?_
    · exact apply_renameTable (fun i hi => by cases hi) hne
    · exact hfilled.wellFormed
  · exact hfilled

/-! ## The keys asked for -/

/-- The script succeeds exactly when it leads to a table the engine can hold. -/
def Exactly (operator : Operator) (db : Database) (s : Script) (pk : Option (String × List ColumnName))
    (fks : List (String × ForeignKeyDef)) (uniques : List (String × List ColumnName)) : Prop :=
  runAll operator.support s.sql db =
    if (described operator.fmter s.table pk fks uniques).WellFormed operator.support
    then some ⟨[described operator.fmter s.table pk fks uniques], []⟩ else none

theorem At.exactly
    (h : At operator db s pk fks uniques) : Exactly operator db s pk fks uniques := by
  unfold Exactly
  rw [if_pos h.wellFormed]
  exact h.run

theorem Exactly.add {pk' : Option (String × List ColumnName)}
    {fks' : List (String × ForeignKeyDef)} {table : Table} {stmt : Stmt}
    (h : Exactly operator db s pk fks uniques)
    (hrun : stmt.apply operator.support ⟨[described operator.fmter s.table pk fks uniques], []⟩ =
      if (described operator.fmter table pk' fks' uniques).WellFormed operator.support
      then some ⟨[described operator.fmter table pk' fks' uniques], []⟩ else none)
    (hpk : pk = pk' ∨ pk = none) (hfks : fks.Sublist fks') (hcols : table.columns = s.table.columns) :
    Exactly operator db (s.add (table, [stmt])) pk' fks' uniques := by
  unfold Exactly at h ⊢
  refine (runAll_append _ _ _).trans ?_
  rw [h]
  by_cases hwf : (described operator.fmter s.table pk fks uniques).WellFormed operator.support
  · rw [if_pos hwf, bind_some, runAll_singleton, hrun]; rfl
  · have hnot : ¬ (described operator.fmter table pk' fks' uniques).WellFormed operator.support := by
      intro hwf'
      refine hwf (hwf'.of_keys hpk hfks (List.Sublist.refl _) ?_)
      unfold described
      rw [hcols]
    rw [if_neg hwf, bind_none]
    exact (if_neg hnot).symm

theorem createPrimaryKey_exactly (hsup : operator.support = .all) (hold : oldTable.columnNames.Nodup)
    (hnew : newTable.columnNames.Nodup)
    (h : At operator db (operator.renamed us newTable oldTable) pk fks uniques)
    (hpk : KeyLeft oldTable newTable pk) :
    Exactly operator db (operator.createPrimaryKey us newTable (operator.renamed us newTable oldTable))
      (if keepsPrimaryKey oldTable newTable then pk else namedKey newTable.name newTable.primaryKeyConstraint) fks
      uniques := by
  have hcreate := creates_of_all hsup
  have hnone : keepsPrimaryKey oldTable newTable = false → pk = none := by
    intro hk
    rcases hpk with hpk | hpk
    · rw [hpk, hk]; rfl
    · exact hpk.1
  rcases createPrimaryKey_cases operator us hold hnew with ⟨hkeep, hsame⟩ | ⟨newPk, hnewPk, hkeep, hthere, hadd⟩
  · rw [hsame]
    by_cases hk : keepsPrimaryKey oldTable newTable = true
    · rw [if_pos hk]; exact h.exactly
    · have hgone : namedKey newTable.name newTable.primaryKeyConstraint = pk := by
        rw [hkeep.resolve_right hk, hnone (by simpa using hk)]; rfl
      rw [if_neg hk, hgone]
      exact h.exactly
  · have hcon : operator.createConstraint (operator.renamed us newTable oldTable).table us (.primaryKey newPk) =
        ({ (operator.renamed us newTable oldTable).table with primaryKeyConstraint := some newPk },
          [.addPrimaryKey (operator.renamed us newTable oldTable).table.name (newPk.nameIn newTable.name)
            newPk.columnNames]) := by
      have hname : (operator.renamed us newTable oldTable).table.name = newTable.name := renamed_name
      unfold createConstraint Constraint.toCreateSQL
      simp only [hthere, hcreate, if_true, nil_append, hname]
    rw [hadd, hcon, hkeep, hnewPk]
    refine h.exactly.add ?_ (Or.inr (hnone hkeep)) (List.Sublist.refl _) rfl
    have happly : (Stmt.addPrimaryKey (described operator.fmter (operator.renamed us newTable oldTable).table pk fks
        uniques).name (newPk.nameIn newTable.name) newPk.columnNames).apply operator.support
          ⟨[described operator.fmter (operator.renamed us newTable oldTable).table pk fks uniques], []⟩ =
        (some { described operator.fmter (operator.renamed us newTable oldTable).table pk fks uniques with
          primaryKey := some (newPk.nameIn newTable.name, newPk.columnNames) }).bind
          (fun t' => if t'.WellFormed operator.support then some ⟨[t'], []⟩ else none) := by
      simp only [Stmt.apply]
      rw [if_pos hcreate, alter_single, hnone hkeep]
      rfl
    exact happly

theorem createForeignKeys_exactly (hsup : operator.support = .all)
    (l : List ForeignKeyConstraint) : ∀ (s : Script) (fks : List (String × ForeignKeyDef)), s.table.name = base →
    Exactly operator db s pk fks uniques →
    Exactly operator db (l.foldl (fun s fk => if (findForeignKeyConstraint s.table fk).isNone then
        s.add (operator.createConstraint s.table us (.foreignKey fk)) else s) s) pk
      (fks ++ namedForeignKeys base (missingForeignKeys s.table.foreignKeyDefs l)) uniques := by
  have hcreate := creates_of_all hsup
  induction l with
  | nil =>
    intro s fks _ h
    unfold missingForeignKeys namedForeignKeys
    rw [map_nil, append_nil]
    exact h
  | cons fk l ih =>
    intro s fks hbase h
    rw [foldl_cons, missingForeignKeys]
    by_cases hfk : fk.toDefinitionSQL ∈ s.table.foreignKeyDefs
    · rw [if_neg (fun hn => findForeignKeyConstraint_isNone.1 hn hfk), if_pos hfk]
      exact ih s fks hbase h
    · rw [if_pos (findForeignKeyConstraint_isNone.2 hfk), if_neg hfk, createConstraint_foreignKey operator us hfk,
        if_pos hcreate]
      have happly : (Stmt.addForeignKey (described operator.fmter s.table pk fks uniques).name (fk.nameIn base)
          fk.toDefinitionSQL).apply operator.support ⟨[described operator.fmter s.table pk fks uniques], []⟩ =
          (some { described operator.fmter s.table pk fks uniques with
            foreignKeys := fks ++ [(fk.nameIn base, fk.toDefinitionSQL)] }).bind
            (fun t' => if t'.WellFormed operator.support then some ⟨[t'], []⟩ else none) := by
        simp only [Stmt.apply]
        rw [if_pos hcreate, alter_single]
        rfl
      have hstep : Exactly operator db (s.add
          ({ s.table with foreignKeyConstraints := s.table.foreignKeyConstraints ++ [fk] },
            (Constraint.foreignKey fk).toCreateSQL s.table.name)) pk
          (fks ++ [(fk.nameIn base, fk.toDefinitionSQL)]) uniques := by
        unfold Constraint.toCreateSQL
        simp only [hbase]
        rw [← hbase] at happly ⊢
        exact h.add happly (Or.inl rfl) (sublist_append_left _ _) rfl
      have hdefs : Table.foreignKeyDefs { s.table with foreignKeyConstraints := s.table.foreignKeyConstraints ++ [fk] } =
          s.table.foreignKeyDefs ++ [fk.toDefinitionSQL] := by
        unfold Table.foreignKeyDefs
        rw [map_append, map_singleton]
      have hlist : fks ++ namedForeignKeys base
          (fk :: missingForeignKeys (s.table.foreignKeyDefs ++ [fk.toDefinitionSQL]) l) =
          fks ++ [(fk.nameIn base, fk.toDefinitionSQL)] ++ namedForeignKeys base (missingForeignKeys
            (Table.foreignKeyDefs { s.table with foreignKeyConstraints := s.table.foreignKeyConstraints ++ [fk] }) l) := by
        rw [hdefs, List.append_assoc]; rfl
      rw [hlist]
      exact ih (s.add ({ s.table with foreignKeyConstraints := s.table.foreignKeyConstraints ++ [fk] }, _)) _ hbase hstep

/-- **The run without the last indexes.** -/
theorem keyed_exactly (hsup : operator.support = .all) (hold : oldTable.columnNames.Nodup)
    (hnew : newTable.columnNames.Nodup) (hwf : (oldTable.schema operator.fmter us).WellFormed operator.support)
    (hfks : ∀ d ∈ (operator.dropped us newTable oldTable).table.foreignKeyDefs,
      d.referencingColumnName ∈ newTable.columnNames)
    (huniques : ∀ u ∈ us, ∀ c ∈ u.columnNames, c ∈ newTable.columnNames) :
    ∃ pk, KeyLeft oldTable newTable pk ∧
      Exactly operator (oldTable.database operator.fmter us) (operator.keyed us newTable oldTable)
        (if keepsPrimaryKey oldTable newTable then pk else namedKey newTable.name newTable.primaryKeyConstraint)
        (namedForeignKeys oldTable.name (operator.dropped us newTable oldTable).table.foreignKeyConstraints ++
          namedForeignKeys newTable.name (missingForeignKeys
            (operator.dropped us newTable oldTable).table.foreignKeyDefs newTable.foreignKeyConstraints))
        (namedUniques oldTable.name (leftUniques oldTable.name us)) := by
  obtain ⟨pk, hat, hpk⟩ := renamed_at hsup hwf hfks huniques
  have hexact := createPrimaryKey_exactly hsup hold hnew hat hpk
  refine ⟨pk, hpk, ?_⟩
  rw [← createPrimaryKey_foreignKeyDefs hold hnew]
  exact createForeignKeys_exactly hsup newTable.foreignKeyConstraints _ _ createPrimaryKey_name hexact

end Operator
end SqlSchema
end DsApm
