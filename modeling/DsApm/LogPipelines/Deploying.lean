import DsApm.LogPipelines.Merge
import DsApm.LogPipelines.Names
import Mathlib.Data.List.Perm.Subperm
/-!
# Deploying — pipelines in a collector's configuration

Each pipeline that is kept shall have its definition under a name of its own, the processors in the list that are ours shall
be these names, all others shall stay, and a second time shall change nothing.  That holds if and only if no two names
clash and no id is drawn (`deployed_iff`): with a clash one definition is written over another and the list keeps what was
in it, and ids are drawn anew each time.
-/
namespace DsApm
namespace LogPipelines

open List

open Weave (weave)

variable {φ : Type}

/-! ## What is meant -/

def CollectorConf.definition (conf : CollectorConf) (name : String) : Option Definition := (conf.processors.getD ∅).lookup name

structure Same (conf conf' : CollectorConf) : Prop where
  definition : ∀ name, conf.definition name = conf'.definition name
  service : conf.service = conf'.service
  rest : conf.rest = conf'.rest

/-- What is left of a configuration and its logs processors when pipelines are deployed, with their names. -/
structure Deployed (K : Checks φ) (pipelines : List (GettablePipeline φ)) (conf : CollectorConf) (logs : Logs)
    (conf' : CollectorConf) (logs' : Logs) (n' : Nat) (names : List String) : Prop where
  nodup : names.Nodup
  own : List.Forall₂ (fun v name => ∃ m m' p, buildProcessor K v m = some (some p, m') ∧
    conf'.definition name = some (.pipeline p.escaped)) (pipelines.filter GettablePipeline.kept) names
  listed : logs'.processors.filter hasSignozPipelineProcessorPrefix = names
  others : logs'.processors.filter (fun x => !hasSignozPipelineProcessorPrefix x) =
    logs.processors.filter fun x => !hasSignozPipelineProcessorPrefix x
  stay : ∀ name, hasSignozPipelineProcessorPrefix name = false → conf'.definition name = conf.definition name
  again : ∀ n, n' ≤ n → ∃ conf'' n'', generateCollectorConfigWithPipelines K conf' pipelines n = some (conf'', n'') ∧ Same conf'' conf'

def Deploys (K : Checks φ) (pipelines : List (GettablePipeline φ)) (conf : CollectorConf) (logs : Logs) (n : Nat) : Prop :=
  ∃ conf' n' logs', generateCollectorConfigWithPipelines K conf pipelines n = some (conf', n') ∧
    conf'.service = some (some logs') ∧ ∃ names, Deployed K pipelines conf logs conf' logs' n' names

/-! ## Definitions -/

theorem map_definitions : ∀ (names : List String) (ps : List (Processor × Nat)) (m : GoMap String Processor), names.length = ps.length →
    names.Nodup → names.map (fun name => (definitions names ps m).lookup name) = ps.map fun p => some p.1
  | [], [], _, _, _ => rfl
  | name :: names, p :: ps, m, hlen, hnd => by
    rw [nodup_cons] at hnd
    have ih := map_definitions names ps (m.insert name p.1) (Nat.succ.inj hlen) hnd.2
    have hfst : (names.zip ps).map Prod.fst = names := map_fst_zip (Nat.le_of_eq (Nat.succ.inj hlen))
    have hhead : (definitions names ps (m.insert name p.1)).lookup name = some p.1 :=
      (GoMap.lookup_foldl_put_of_not_mem (fun p (_ : Option Processor) => p.1) (names.zip ps) _ (by rw [hfst]; exact hnd.1)).trans
        (AList.lookup_insert _)
    exact cons_eq_cons.2 ⟨hhead, ih⟩

theorem lookup_escapeProcessors : ∀ (names : List String) (m : GoMap String Processor), names.Nodup → ∀ k,
    (escapeProcessors names m).lookup k = if k ∈ names then (m.lookup k).map Processor.escaped else m.lookup k
  | [], _, _, _ => rfl
  | name :: names, m, hnd, k => by
    rw [nodup_cons] at hnd
    rw [escapeProcessors, foldl_cons]
    refine (lookup_escapeProcessors names _ hnd.2 k).trans ?_
    by_cases hk : k = name
    · subst hk
      rw [if_neg hnd.1, if_pos mem_cons_self]
      cases hl : m.lookup k with
      | none => exact hl
      | some p => exact AList.lookup_insert m
    · simp only [mem_cons, hk, false_or]
      cases m.lookup name with
      | none => rfl
      | some p => rw [AList.lookup_insert_ne hk]

theorem lookup_updateProcessorConfigs (agentProcessors : Option (GoMap String Definition)) (m : GoMap String Processor) (k : String) :
    (updateProcessorConfigs agentProcessors m).lookup k = match m.lookup k with
      | some p => some (.pipeline p)
      | none => if hasSignozPipelineProcessorPrefix k then none else (agentProcessors.getD ∅).lookup k := by
  rw [updateProcessorConfigs, GoMap.lookup_filterMapVal, GoMap.lookup_copyInto, GoMap.lookup_filterMapVal]
  cases m.lookup k with
  | some p => simp
  | none =>
    cases hasSignozPipelineProcessorPrefix k with
    | false => simp
    | true => simp

/-! ## The configuration that is yielded -/

def yielded (conf : CollectorConf) (logs : Logs) (prepared : Prepared) : CollectorConf :=
  { conf with
    processors := some (updateProcessorConfigs conf.processors (escapeProcessors prepared.names prepared.processors)),
    service := some (some { logs with processors := (buildCollectorPipelineProcessorsList logs.processors prepared.names).1 }) }

theorem generate_eq {K : Checks φ} {conf : CollectorConf} {logs : Logs} (hlogs : conf.service = some (some logs))
    (pipelines : List (GettablePipeline φ)) (n : Nat) : generateCollectorConfigWithPipelines K conf pipelines n =
      (preparePipelineProcessor K pipelines n).map fun r => (yielded conf logs r.1, r.2) := by
  rw [generateCollectorConfigWithPipelines]
  cases preparePipelineProcessor K pipelines n with
  | none => rfl
  | some r =>
    simp only [Option.bind_some, hlogs]
    rfl

section
variable {K : Checks φ} {pipelines : List (GettablePipeline φ)} {conf : CollectorConf} {logs : Logs} {n n' : Nat} {prepared : Prepared}
  (h : preparePipelineProcessor K pipelines n = some (prepared, n'))
include h

theorem names_ours : ∀ name ∈ prepared.names, hasSignozPipelineProcessorPrefix name = true := by
  obtain ⟨-, -, -, -, hnames⟩ := preparePipelineProcessor_built h
  rw [hnames]
  exact fun name hname => assigned_ours _ (aliases_ours 0 pipelines) name (mem_reverse.1 hname)

theorem names_nodup : prepared.names.Nodup ↔ ¬Clash (aliases 0 pipelines) := by
  obtain ⟨-, -, -, -, hnames⟩ := preparePipelineProcessor_built h
  rw [hnames, nodup_reverse]
  exact nodup_assigned _ (nodup_places 0 pipelines)

theorem definition_of_mem (hnd : prepared.names.Nodup) {name : String} (hname : name ∈ prepared.names) :
    (yielded conf logs prepared).definition name = (prepared.processors.lookup name).map fun p => .pipeline p.escaped := by
  change (updateProcessorConfigs conf.processors (escapeProcessors prepared.names prepared.processors)).lookup name = _
  rw [lookup_updateProcessorConfigs, lookup_escapeProcessors _ _ hnd, if_pos hname]
  cases prepared.processors.lookup name with
  | some p => rfl
  | none => exact if_pos (names_ours h name hname)

theorem map_definition (conf : CollectorConf) (logs : Logs) (hnd : prepared.names.Nodup) : ∃ ps, Built K (pipelines.filter GettablePipeline.kept) n ps n' ∧
    prepared.names.map (yielded conf logs prepared).definition = ps.map fun p => some (.pipeline p.1.escaped) := by
  obtain ⟨ps, hbuilt, hlen, hprocs, -⟩ := preparePipelineProcessor_built h
  refine ⟨ps, hbuilt, ?_⟩
  have hmap := congrArg (List.map (Option.map fun p => Definition.pipeline (Processor.escaped p)))
    (map_definitions prepared.names ps ∅ hlen hnd)
  rw [List.map_map, List.map_map, ← hprocs] at hmap
  exact (map_congr_left fun name hname => definition_of_mem h hnd hname).trans hmap

theorem definition_of_not_mem (hnd : prepared.names.Nodup) {name : String} (hname : name ∉ prepared.names) :
    (yielded conf logs prepared).definition name =
      if hasSignozPipelineProcessorPrefix name then none else conf.definition name := by
  obtain ⟨ps, -, hlen, hprocs, -⟩ := preparePipelineProcessor_built h
  have hfst : (prepared.names.zip ps).map Prod.fst = prepared.names := map_fst_zip (Nat.le_of_eq hlen)
  have hnone : prepared.processors.lookup name = none := by
    rw [hprocs]
    exact GoMap.lookup_foldl_put_of_not_mem (fun p (_ : Option Processor) => p.1) (prepared.names.zip ps) ∅ (by rw [hfst]; exact hname)
  change (updateProcessorConfigs conf.processors (escapeProcessors prepared.names prepared.processors)).lookup name = _
  rw [lookup_updateProcessorConfigs, lookup_escapeProcessors _ _ hnd, if_neg hname, hnone]
  rfl

/-! ## One direction -/

/-- **Without a clash, each has its own and the list is in order.** -/
theorem yielded_list (hcurrent : logs.processors.Nodup) (hnd : prepared.names.Nodup) :
    let list := (buildCollectorPipelineProcessorsList logs.processors prepared.names).1
    list.Nodup ∧ list.filter hasSignozPipelineProcessorPrefix = prepared.names ∧
      list.filter (fun x => !hasSignozPipelineProcessorPrefix x) = logs.processors.filter fun x => !hasSignozPipelineProcessorPrefix x := by
  have hours := names_ours h
  have hwanted := nodup_wanted prepared.names hcurrent
  have hin : ∀ x ∈ wanted prepared.names logs.processors, hasSignozPipelineProcessorPrefix x = true → x ∈ prepared.names :=
    fun x => mem_names_of_wanted
  simp only [built_of_nodup hcurrent hours hnd]
  exact ⟨Weave.nodup_weave hours hnd hwanted hin, Weave.ours_weave _ _ hours hwanted hin,
    (Weave.others_weave _ _ hours).trans others_wanted⟩

omit h in
theorem own_of_built {conf : CollectorConf} : ∀ {vs : List (GettablePipeline φ)} {n n' : Nat} {ps : List (Processor × Nat)} {names : List String},
    Built K vs n ps n' → names.map conf.definition = ps.map (fun p => some (.pipeline p.1.escaped)) →
      List.Forall₂ (fun v name => ∃ m m' p, buildProcessor K v m = some (some p, m') ∧ conf.definition name = some (.pipeline p.escaped)) vs names
  | _, _, _, _, [], .nil _, _ => .nil
  | _, _, _, _, name :: names, .cons head tail, heq => by
    rw [map_cons, map_cons, List.cons.injEq] at heq
    exact .cons ⟨_, _, _, head, heq.1⟩ (own_of_built tail heq.2)

/-- **A second time, without an id drawn, changes nothing.** -/
theorem yielded_again (hcurrent : logs.processors.Nodup) (hnd : prepared.names.Nodup)
    (hdrawn : ∀ v ∈ pipelines, v.kept = true → drawn v.config = 0) (m : Nat) :
    ∃ conf'' n'', generateCollectorConfigWithPipelines K (yielded conf logs prepared) pipelines m = some (conf'', n'') ∧
      Same conf'' (yielded conf logs prepared) := by
  obtain ⟨r, hr⟩ := prepareFrom_start (K := K) pipelines hdrawn 0 ⟨∅, []⟩
  obtain rfl : r = some prepared := by
    have hn := (hr n).symm.trans h
    obtain ⟨r', hr', heq⟩ := Option.map_eq_some_iff.1 hn
    cases heq
    exact hr'
  have hm : preparePipelineProcessor K pipelines m = some (prepared, m) := hr m
  obtain ⟨hlist, hlisted, -⟩ := yielded_list h hcurrent hnd
  let logs' : Logs := { logs with processors := (buildCollectorPipelineProcessorsList logs.processors prepared.names).1 }
  have hlogs' : (yielded conf logs prepared).service = some (some logs') := rfl
  refine ⟨yielded (yielded conf logs prepared) logs' prepared, m, by rw [generate_eq hlogs', hm]; rfl, ⟨fun name => ?_, ?_, rfl⟩⟩
  · by_cases hname : name ∈ prepared.names
    · exact (definition_of_mem h hnd hname).trans (definition_of_mem h hnd hname).symm
    · rw [definition_of_not_mem h hnd hname, definition_of_not_mem h hnd hname]
      split <;> rfl
  · -- the list follows the names already
    have hkeep : ∀ x ∈ (buildCollectorPipelineProcessorsList logs.processors prepared.names).1,
        (decide (x ∈ prepared.names) || !hasSignozPipelineProcessorPrefix x) = true := fun x hx => by
      cases hp : hasSignozPipelineProcessorPrefix x with
      | false => rw [Bool.not_false, Bool.or_true]
      | true => rw [decide_eq_true (hlisted ▸ mem_filter.2 ⟨hx, hp⟩), Bool.true_or]
    have hsame : (buildCollectorPipelineProcessorsList (buildCollectorPipelineProcessorsList logs.processors prepared.names).1 prepared.names).1 =
        (buildCollectorPipelineProcessorsList logs.processors prepared.names).1 := by
      rw [built_of_nodup hlist (names_ours h) hnd, wanted, filter_eq_self.2 hkeep]
      exact Weave.weave_self _ _ hlist hlisted
    exact congrArg (fun l => some (some { logs with processors := l })) hsame

/-- **Where no names clash and no id is drawn, the configuration is as it shall be.** -/
theorem deploys_of (hlogs : conf.service = some (some logs)) (hcurrent : logs.processors.Nodup)
    (hclash : ¬Clash (aliases 0 pipelines)) (hdrawn : ∀ v ∈ pipelines, v.kept = true → drawn v.config = 0) :
    Deploys K pipelines conf logs n := by
  have hnd := (names_nodup h).2 hclash
  obtain ⟨ps, hbuilt, hmap⟩ := map_definition h conf logs hnd
  obtain ⟨-, hlisted, hothers⟩ := yielded_list h hcurrent hnd
  refine ⟨yielded conf logs prepared, n', _, by rw [generate_eq hlogs, h]; rfl, rfl, prepared.names, ?_⟩
  refine ⟨hnd, own_of_built hbuilt hmap, hlisted, hothers, fun name hname => ?_, fun m _ => yielded_again h hcurrent hnd hdrawn m⟩
  have hnot : name ∉ prepared.names := fun hmem => by
    rw [names_ours h name hmem] at hname
    cases hname
  rw [definition_of_not_mem h hnd hnot, hname]
  rfl

end

/-! ## The other -/

section
variable {K : Checks φ}

theorem Built.le {vs : List (GettablePipeline φ)} {n n' : Nat} {ps : List (Processor × Nat)} (h : Built K vs n ps n') : n ≤ n' := by
  induction h with
  | nil n => exact Nat.le_refl n
  | cons head _ ih =>
    rw [(buildProcessor_ids head).1] at ih
    exact Nat.le_of_add_right_le ih

theorem Built.length_eq {vs : List (GettablePipeline φ)} {n n' : Nat} {ps : List (Processor × Nat)} (h : Built K vs n ps n') :
    ps.length = vs.length := by
  induction h with
  | nil => rfl
  | cons _ _ ih => exact congrArg (· + 1) ih

theorem replaceAll_twice_inj (c : Char) : ∀ l l' : List Char,
    (l.flatMap fun d => if d = c then [c, c] else [d]) = (l'.flatMap fun d => if d = c then [c, c] else [d]) → l = l'
  | [], [], _ => rfl
  | [], d :: l, h => by rw [flatMap_cons] at h; split at h <;> cases h
  | d :: l, [], h => by rw [flatMap_cons] at h; split at h <;> cases h
  | d :: l, d' :: l', h => by
    rw [flatMap_cons, flatMap_cons] at h
    split_ifs at h with hd hd' hd'
    · rw [hd, hd', replaceAll_twice_inj c l l' (List.cons.inj (List.cons.inj h).2).2]
    · exact absurd (List.cons.inj h).1.symm hd'
    · exact absurd (List.cons.inj h).1 hd
    · rw [(List.cons.inj h).1, replaceAll_twice_inj c l l' (List.cons.inj h).2]

theorem escapeDollar_inj : Function.Injective escapeDollar := fun _ _ h =>
  String.toList_injective (replaceAll_twice_inj '$' _ _ (String.ofList_injective h))

theorem ids_of_escaped {p p' : Processor} (h : p.escaped = p'.escaped) :
    p.operators.map PipelineOperator.id = p'.operators.map PipelineOperator.id := by
  have hids := congrArg (fun p : Processor => p.operators.map PipelineOperator.id) h
  simp only [Processor.escaped, List.map_map] at hids
  refine map_injective_iff.2 escapeDollar_inj ?_
  rw [List.map_map, List.map_map]
  exact hids

/-- **A second time draws other ids**: if the definitions are the same, none was drawn. -/
theorem drawn_of_twice (hnew : Function.Injective K.newString) : ∀ {vs : List (GettablePipeline φ)} {n n' m m' : Nat}
    {ps qs : List (Processor × Nat)}, Built K vs n ps n' → Built K vs m qs m' → n' ≤ m →
      ps.map (fun p => p.1.escaped) = qs.map (fun p => p.1.escaped) → ∀ v ∈ vs, drawn v.config = 0
  | [], _, _, _, _, _, _, _, _, _, _, _, hv => by cases hv
  | v :: vs, n, n', m, m', _, _, .cons head tail, .cons head' tail', hle, heq, v', hv' => by
    rw [map_cons, map_cons, List.cons.injEq] at heq
    obtain ⟨hn, -, hids⟩ := buildProcessor_ids head
    obtain ⟨hm, -, hids'⟩ := buildProcessor_ids head'
    have htail := tail.le
    rcases mem_cons.1 hv' with rfl | hv'
    · by_contra hdrawn
      have hsame := ids_of_escaped heq.1
      rw [hids _ rfl, hids' _ rfl] at hsame
      have := idsFrom_inj hnew v'.config (append_cancel_right (List.cons.inj hsame).2) hdrawn
      omega
    · exact drawn_of_twice hnew tail tail' (by omega) heq.2 v' hv'

variable {pipelines : List (GettablePipeline φ)} {conf : CollectorConf} {logs : Logs} {n n' : Nat} {prepared : Prepared}
  (h : preparePipelineProcessor K pipelines n = some (prepared, n'))
include h

theorem eq_of_generate {conf' : CollectorConf} {logs' : Logs} {m : Nat} (hlogs : conf.service = some (some logs))
    (hgen : generateCollectorConfigWithPipelines K conf pipelines n = some (conf', m)) (hlogs' : conf'.service = some (some logs')) :
    conf' = yielded conf logs prepared ∧ m = n' ∧
      logs' = { logs with processors := (buildCollectorPipelineProcessorsList logs.processors prepared.names).1 } := by
  rw [generate_eq hlogs, h] at hgen
  cases hgen
  refine ⟨rfl, rfl, ?_⟩
  cases hlogs'
  rfl

/-- **Where names clash, there are too few in the list.** -/
theorem not_clash_of {names : List String} {conf' : CollectorConf} {logs' : Logs} {m : Nat} (hcurrent : logs.processors.Nodup)
    (hlogs' : logs' = { logs with processors := (buildCollectorPipelineProcessorsList logs.processors prepared.names).1 })
    (hd : Deployed K pipelines conf logs conf' logs' m names) : ¬Clash (aliases 0 pipelines) := by
  rw [← names_nodup h]
  by_contra hnd
  obtain ⟨ps, hbuilt, hlen, -⟩ := preparePipelineProcessor_built h
  have hsub : names ⊆ prepared.names := fun x hx => by
    rw [← hd.listed, hlogs', mem_filter] at hx
    rw [built_of_twice hcurrent hnd] at hx
    exact mem_names_of_wanted hx.1 hx.2
  have hcount : prepared.names.length ≤ names.length := by
    rw [hlen, hbuilt.length_eq, hd.own.length_eq]
  exact hnd (((subperm_of_subset hd.nodup hsub).perm_of_length_le hcount).nodup_iff.1 hd.nodup)

/-- **Deployed as it shall be, no names clash.** -/
theorem not_clash_of_deploys (hlogs : conf.service = some (some logs)) (hcurrent : logs.processors.Nodup)
    (hd : Deploys K pipelines conf logs n) : ¬Clash (aliases 0 pipelines) := by
  obtain ⟨conf', m, logs', hgen, hlogs', names, hd⟩ := hd
  obtain ⟨-, -, hlist⟩ := eq_of_generate h hlogs hgen hlogs'
  exact not_clash_of h hcurrent hlist hd

/-- **Deployed as it shall be, no id is drawn.** -/
theorem drawn_of_deploys (hnew : Function.Injective K.newString) (hlogs : conf.service = some (some logs)) (hnd : prepared.names.Nodup)
    (hd : Deploys K pipelines conf logs n) : ∀ v ∈ pipelines.filter GettablePipeline.kept, drawn v.config = 0 := by
  obtain ⟨conf', m, logs', hgen, hlogs', names, hd⟩ := hd
  obtain ⟨rfl, rfl, -⟩ := eq_of_generate h hlogs hgen hlogs'
  -- once more, right behind the first time
  obtain ⟨conf'', m', hgen', hsame⟩ := hd.again m (Nat.le_refl m)
  rw [generate_eq hlogs'] at hgen'
  obtain ⟨⟨prepared', m''⟩, h', heq⟩ := Option.map_eq_some_iff.1 hgen'
  cases heq
  have hnames : prepared'.names = prepared.names := by
    obtain ⟨-, -, -, -, hnames⟩ := preparePipelineProcessor_built h
    obtain ⟨-, -, -, -, hnames'⟩ := preparePipelineProcessor_built h'
    rw [hnames, hnames']
  obtain ⟨ps, hbuilt, hps⟩ := map_definition h conf logs hnd
  obtain ⟨qs, hbuilt', hqs⟩ := map_definition h' (yielded conf logs prepared) logs' (hnames ▸ hnd)
  have hdefs : ps.map (fun p => p.1.escaped) = qs.map fun p => p.1.escaped := by
    have heq := hps.symm.trans ((map_congr_left fun name _ => (hsame.definition name).symm).trans (hnames ▸ hqs))
    rw [← Function.comp_def (fun p : Processor => some (Definition.pipeline p)) (fun p : Processor × Nat => p.1.escaped),
      ← List.map_map, ← List.map_map] at heq
    exact map_injective_iff.2 (fun p q h => by cases h; rfl) heq
  exact drawn_of_twice hnew hbuilt hbuilt' (Nat.le_refl m) hdefs

end

/-- **Log pipeline deployment** is right if and only if no names clash and no kept pipeline draws an id. -/
theorem deployed_iff (K : Checks φ) (hnew : Function.Injective K.newString) (conf : CollectorConf) (logs : Logs)
    (hlogs : conf.service = some (some logs)) (hcurrent : logs.processors.Nodup) (pipelines : List (GettablePipeline φ)) (n : Nat)
    (haccepted : (preparePipelineProcessor K pipelines n).isSome = true) :
    Deploys K pipelines conf logs n ↔ ¬Clash (aliases 0 pipelines) ∧ ∀ v ∈ pipelines, v.kept = true → drawn v.config = 0 := by
  obtain ⟨⟨prepared, n'⟩, h⟩ := Option.isSome_iff_exists.1 haccepted
  refine ⟨fun hd => ?_, fun hc => deploys_of h hlogs hcurrent hc.1 hc.2⟩
  have hclash := not_clash_of_deploys h hlogs hcurrent hd
  exact ⟨hclash, fun v hv hkept => drawn_of_deploys h hnew hlogs ((names_nodup h).2 hclash) hd v (mem_filter.2 ⟨hv, hkept⟩)⟩

/-! ## Pipelines by their aliases -/

def adding (pipelineAlias : String) : GettablePipeline String where
  enabled := true
  pipelineAlias := pipelineAlias
  filter := "attributes[\"a\"] != nil"
  config := [{ type := "add", id := "add", enabled := true, field := "attributes.b", value := "c" }]

def plain : Checks String where
  fieldNotNilCheck := fun path => some (path ++ " != nil")
  fieldsReferencedInExprNotNilCheck := fun _ => some ""
  regexForStrptimeLayout := fun _ => none
  parse := some
  sendOnErrorQuiet := "send_quiet"
  newString := fun n => String.ofList (List.replicate n '0')

theorem newString_plain : Function.Injective plain.newString := fun n m h => by
  have hlen := congrArg List.length (String.ofList_injective h)
  rwa [List.length_replicate, List.length_replicate] at hlen

def batching : CollectorConf := ⟨none, some (some ⟨["exporter"], ["batch"], ["otlp"]⟩), ""⟩

/-- Two aliases that come to the same name. -/
theorem deployed_two : Deploys plain [adding "a b", adding "a_b"] batching ⟨["exporter"], ["batch"], ["otlp"]⟩ 0 ↔
    ¬Clash (aliases 0 [adding "a b", adding "a_b"]) ∧
      ∀ v ∈ [adding "a b", adding "a_b"], v.kept = true → drawn v.config = 0 :=
  deployed_iff plain newString_plain batching _ rfl (by decide) _ 0 (by decide)

/-- The name of the third is the second's with the third's place, and that is the first's. -/
theorem third_over_first : (preparePipelineProcessor plain [adding "a-2", adding "a", adding "a"] 0).isSome = true ∧
    ¬Deploys plain [adding "a-2", adding "a", adding "a"] batching ⟨["exporter"], ["batch"], ["otlp"]⟩ 0 := by
  have haccepted : (preparePipelineProcessor plain [adding "a-2", adding "a", adding "a"] 0).isSome = true := by decide
  obtain ⟨⟨prepared, n'⟩, h⟩ := Option.isSome_iff_exists.1 haccepted
  refine ⟨haccepted, fun hd => not_clash_of_deploys h rfl (by decide) hd (.inl ⟨.inl rfl, ?_⟩)⟩
  exact ⟨(0, collectorConfProcessorName (adding "a-2")), by decide, by decide⟩

end LogPipelines
end DsApm
