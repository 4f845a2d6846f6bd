import DDAG.Connectors.Assembled
import DDAG.Connectors.Substitution
import DDAG.Gateway.Filters

/-!
# The generated parameters and the binder

The query builder makes up parameter names from the names of the filters, and the binder reads
them back out of the SQL text.

* `Validate` lets no rune into the SQL text at which the binder would read a region, a cast or
  a parameter (`Whitelisted`, `copied_of_safeSelect`).
* Each clause reads as the names of its own parameters (`reads_clause`), and the SQL text
  reads as all of them, one after the other (`reads_build`).

A filter may have any name that is not empty, and the binder reads a reference only as
far as it is an identifier.  So `Bind` gives each generated parameter its place exactly when the
filters that bind a value have names of identifier runes, dots and hyphens
(`generated_bind_iff`).
-/

namespace DDAG.Gateway

open Models Fallible
open Connectors (Copied Reads Apart IsName isIdentPart isIdentStart isCopied Substitution)

/-! ## The parts `Validate` accepts -/

theorem isIdentPart_of_isAlias {v : Text} (h : isAlias v = true) : ∀ c ∈ v, isIdentPart c = true := by
  cases v with
  | nil => cases h
  | cons c rest =>
      obtain ⟨hstart, hrest⟩ := Bool.and_eq_true_iff.mp h
      intro x hx
      rcases List.mem_cons.mp hx with rfl | hx
      · exact Connectors.isIdentPart_of_isIdentStart hstart
      · exact List.all_eq_true.mp hrest x hx

theorem copied_of_isAlias {v : Text} (h : isAlias v = true) : Copied v :=
  .of_forall fun c hc => Connectors.isCopied_of_isIdentPart (isIdentPart_of_isAlias h c hc)

theorem copied_of_safeIdent {v : Text} (h : safeIdent v = true) : Copied v := by
  unfold safeIdent at h
  split at h
  next _ => exact copied_of_isAlias h
  next a b hcut =>
    obtain ⟨ha, hb⟩ := Bool.and_eq_true_iff.mp h
    rw [Strings.cut_eq_some hcut]
    exact (copied_of_isAlias ha).append (Copied.append (s := ['.']) rfl (copied_of_isAlias hb))

/-- A text is copied if what an optional last part leaves of it is. -/
theorem copied_of_withoutAs {v x : Text} (hx : x ∈ withoutAs v) (h : Copied x) : Copied v := by
  rcases List.mem_cons.mp hx with rfl | hx
  · exact h
  · obtain ⟨n, -, hn⟩ := List.mem_filterMap.mp hx
    split at hn
    next hpart =>
      cases hn
      obtain ⟨hkeyword, halias⟩ := Bool.and_eq_true_iff.mp hpart
      obtain ⟨name, hname⟩ := List.isPrefixOf_iff_prefix.mp hkeyword
      have hdrop : v.drop (n + 4) = name := by
        rw [← List.drop_drop, ← hname]
        rfl
      rw [hdrop] at halias
      rw [← List.take_append_drop n v, ← hname]
      exact h.append (Copied.append rfl (copied_of_isAlias halias))
    next _ => cases hn

theorem copied_of_isAggregate {v : Text} (h : isAggregate v = true) : Copied v := by
  obtain ⟨f, hf, hagg⟩ := List.any_eq_true.mp h
  obtain ⟨hstart, harg⟩ := Bool.and_eq_true_iff.mp hagg
  obtain ⟨hcalled, hlast⟩ := Bool.and_eq_true_iff.mp hstart
  obtain ⟨rest, rfl⟩ := List.isPrefixOf_iff_prefix.mp hcalled
  have hcall : Copied f := by
    simp only [List.mem_cons, List.not_mem_nil, or_false] at hf
    rcases hf with rfl | rfl | rfl | rfl | rfl <;> rfl
  refine hcall.append ?_
  rcases List.eq_nil_or_concat rest with rfl | ⟨arg, c, rfl⟩
  · rfl
  · have hc : c = ')' := by simpa using hlast
    have harg' : arg = ['*'] ∨ safeIdent arg = true := by simpa using harg
    rw [hc, List.concat_eq_append]
    refine Copied.append ?_ rfl
    rcases harg' with rfl | hident
    · rfl
    · exact copied_of_safeIdent hident

theorem isCopied_toUpper {c : Char} (h : isCopied c = true) : isCopied c.toUpper = true := by
  unfold Char.toUpper
  split
  next hlower =>
    -- the upper case of an ASCII letter is one of `A` to `Z`
    apply Connectors.isCopied_of (p := fun x => decide (65 ≤ x.toNat ∧ x.toNat ≤ 90)) rfl
    rw [UInt32.le_iff_toNat_le, UInt32.le_iff_toNat_le] at hlower
    simp only [Char.toNat, decide_eq_true_eq, UInt32.toNat_add, Char.reduceVal, UInt32.reduceSub,
      UInt32.reduceToNat] at hlower ⊢
    omega
  next _ => exact h

theorem isCopied_upperRune {c : Char} (h : isCopied c = true) :
    isCopied (Strings.upperRune c) = true := by
  unfold Strings.upperRune
  split
  next _ => rfl
  next _ =>
    split
    next _ => rfl
    next _ => exact isCopied_toUpper h

theorem copied_of_upper_trim {v : Text} (h : Copied (Strings.toUpper (Strings.trimSpace v))) :
    Copied v := by
  obtain ⟨a, b, hv, ha, hb⟩ := Strings.trimSpace_split v
  have hspace : ∀ {w : Text}, (∀ c ∈ w, Strings.isSpace c = true) → Copied w := fun hw =>
    .of_forall fun c hc => Connectors.isCopied_of rfl (hw c hc)
  have hmiddle : Copied (Strings.trimSpace v) := by
    apply Copied.of_forall
    intro c hc
    have hupper : isCopied (Strings.upperRune c) = true := h.mem (List.mem_map_of_mem hc)
    exact Connectors.isCopied_of (p := fun x => isCopied (Strings.upperRune x)) rfl hupper
  rw [hv]
  exact (hspace ha).append (hmiddle.append (hspace hb))

theorem copied_of_safeSelect {v : Text} (h : safeSelect v = true) : Copied v := by
  rcases Bool.or_eq_true_iff.mp h with hcol | hagg
  · obtain ⟨x, hx, hident⟩ := List.any_eq_true.mp hcol
    exact copied_of_withoutAs hx (copied_of_safeIdent hident)
  · obtain ⟨x, hx, haggregate⟩ := List.any_eq_true.mp hagg
    exact copied_of_upper_trim (copied_of_withoutAs hx (copied_of_isAggregate haggregate))

theorem copied_joinText {j : JoinConfig} (h : validateJoin j = .ok ()) : Copied (joinText j) := by
  obtain ⟨htype, h⟩ := (ite_eq_ok h).resolve_left fun hbad => nomatch hbad.2
  obtain ⟨hsafe, -⟩ := (ite_eq_ok h).resolve_left fun hbad => nomatch hbad.2
  simp only [Bool.or_eq_true, Bool.not_eq_true', Bool.and_eq_true, decide_eq_true_eq, not_or,
    not_and, Bool.not_eq_false, ne_eq, not_not] at hsafe
  obtain ⟨⟨⟨⟨htable, halias⟩, hleft⟩, hright⟩, hsign⟩ := hsafe
  have hlower : Strings.toLower j.type = "inner".toList ∨ Strings.toLower j.type = "left".toList := by
    tauto
  have hjoin : Copied (Strings.toUpper j.type) := by
    apply Copied.of_forall
    intro x hx
    obtain ⟨c, hc, rfl⟩ := List.mem_map.mp hx
    have hmem : Strings.lowerRune c ∈ Strings.toLower j.type := List.mem_map_of_mem hc
    have hpart : isIdentPart (Strings.lowerRune c) = true := by
      have hall : (Strings.toLower j.type).all isIdentPart = true := by
        rcases hlower with heq | heq <;> rw [heq] <;> rfl
      exact List.all_eq_true.mp hall _ hmem
    exact isCopied_upperRune
      (Connectors.isCopied_of (p := fun y => isIdentPart (Strings.lowerRune y)) rfl hpart)
  have haliased : Copied (if j.joinAlias ≠ [] then ' ' :: j.joinAlias else []) := by
    split
    next hne => exact Copied.append (s := [' ']) rfl (copied_of_isAlias (halias hne))
    next _ => rfl
  unfold joinText
  rw [hsign]
  have hkeyword : Copied (' ' :: Strings.toUpper j.type ++ " JOIN ".toList) :=
    (Copied.append (s := [' ']) rfl hjoin).append rfl
  have htables : Copied (' ' :: Strings.toUpper j.type ++ " JOIN ".toList ++ j.table ++
      (if j.joinAlias ≠ [] then ' ' :: j.joinAlias else []) ++ " ON ".toList) :=
    ((hkeyword.append (copied_of_safeIdent htable)).append haliased).append rfl
  have hequals : Copied (' ' :: "=".toList ++ ' ' :: j.on.right) :=
    Copied.append (s := " = ".toList) rfl (copied_of_safeIdent hright)
  have hon := (htables.append (copied_of_safeIdent hleft)).append hequals
  simpa only [List.append_assoc, List.cons_append] using hon

/-- What `Validate` has checked. -/
structure Whitelisted (c : QueryBuilderConfig) : Prop where
  baseTable : safeIdent c.baseTable = true
  select : ∀ sel ∈ c.select, safeSelect sel = true
  groupBy : ∀ g ∈ c.groupBy, safeIdent g = true
  joins : ∀ j ∈ c.joins, validateJoin j = .ok ()
  filters : ∀ f ∈ c.filters, safeIdent f.column = true
  sortableColumns : ∀ s ∈ c.sortableColumns, safeIdent s.column = true

theorem whitelisted_ok {kind name : Text} {ok : Bool} (h : whitelisted kind name ok = .ok ()) :
    ok = true := by
  obtain ⟨hok, -⟩ := (ite_eq_ok h).resolve_right fun hbad => nomatch hbad.2
  exact hok

theorem validate_whitelists {c : QueryBuilderConfig} (h : validate c = .ok ()) : Whitelisted c := by
  unfold validate at h
  obtain ⟨hbase, h⟩ := (ite_eq_ok h).resolve_left fun hbad => nomatch hbad.2
  obtain ⟨-, h⟩ := (ite_eq_ok h).resolve_left fun hbad => nomatch hbad.2
  obtain ⟨_, hselect, h⟩ := bind_eq_ok.mp h
  obtain ⟨_, hgroup, h⟩ := bind_eq_ok.mp h
  obtain ⟨_, hjoins, h⟩ := bind_eq_ok.mp h
  obtain ⟨_, hfilters, hsort⟩ := bind_eq_ok.mp h
  constructor
  case baseTable => simpa using hbase
  case select => exact fun sel hsel => whitelisted_ok (forM_eq_ok hselect sel hsel)
  case groupBy => exact fun g hg => whitelisted_ok (forM_eq_ok hgroup g hg)
  case joins => exact forM_eq_ok hjoins
  case filters =>
    exact fun f hf => (Bool.and_eq_true_iff.mp (whitelisted_ok (forM_eq_ok hfilters f hf))).2
  case sortableColumns =>
    exact fun s hs => (Bool.and_eq_true_iff.mp (whitelisted_ok (forM_eq_ok hsort s hs))).2

/-! ## The clauses -/

section Clause

variable {f : FilterConfig} (hcol : Copied f.column)

include hcol

theorem reads_comparison {sign : String} (hsign : Copied sign.toList) (key : Text) :
    Reads (comparison f sign [':' :: key]) [key] :=
  (hcol.append hsign).append_reads (Connectors.reads_reference key)

/-- A clause reads as the names of its parameters. -/
theorem reads_clause (truth : Bool) (raw : Text) (o : Operator) {keys : List Text}
    (hlen : keys.length = (o.values raw).length) :
    Reads (o.clause f truth (keys.map (':' :: ·))) keys := by
  have hone : ∀ {sign : String}, Copied sign.toList → keys.length = 1 →
      Reads (comparison f sign (keys.map (':' :: ·))) keys := by
    intro sign hsign hlen
    obtain ⟨key, rfl⟩ := List.length_eq_one_iff.mp hlen
    exact reads_comparison hcol hsign key
  cases o with
  | eq => exact hone rfl hlen
  | neq => exact hone rfl hlen
  | like => exact hone rfl hlen
  | gt => exact hone rfl hlen
  | gte => exact hone rfl hlen
  | lt => exact hone rfl hlen
  | lte => exact hone rfl hlen
  | between =>
      have hjoin : Reads (Strings.join (keys.map (':' :: ·)) " AND ".toList) keys :=
        Connectors.reads_join_references keys rfl rfl
      exact Copied.append_reads (hcol.append (t := " BETWEEN ".toList) rfl) hjoin
  | within =>
      have hjoin : Reads (Strings.join (keys.map (':' :: ·)) ", ".toList) keys :=
        Connectors.reads_join_references keys rfl rfl
      have hopen : Reads (f.column ++ " IN (".toList ++ Strings.join (keys.map (':' :: ·)) ", ".toList)
          keys := Copied.append_reads (hcol.append rfl) hjoin
      exact hopen.append_copied rfl rfl
  | isnull =>
      obtain rfl := List.length_eq_zero_iff.mp hlen
      cases truth with
      | true => exact (hcol.append (t := " IS NULL".toList) rfl).reads
      | false => exact (hcol.append (t := " IS NOT NULL".toList) rfl).reads

end Clause

/-! ## The loop over the filters -/

/-- What going through the filters has added: each clause with the names it reads as, and the
parameters with the values of the filters. -/
structure Adds (query : Values) (fs : List FilterConfig) (acc acc' : List Text × Params)
    (clauses : List Text) (keys : List (List Text)) (es : Params) : Prop where
  clauses_eq : acc'.1 = acc.1 ++ clauses
  params_eq : acc'.2 = acc.2 ++ es
  reads : List.Forall₂ Reads clauses keys
  names : es.names = keys.flatten
  values : es.map Prod.snd = (fs.flatMap (derivedValues query)).map .text
  /-- Every name belongs to a filter that binds a value. -/
  owner : ∀ k ∈ es.names, ∃ f ∈ fs, derivedValues query f ≠ [] ∧ ∃ n, k = paramKey (filterBase f) n
  /-- Every filter that binds a value has a name. -/
  owned : ∀ f ∈ fs, derivedValues query f ≠ [] → ∃ n, paramKey (filterBase f) n ∈ es.names

section Adds

variable {query : Values} {fs gs : List FilterConfig} {acc acc' acc'' : List Text × Params}

/-- Filters that bind no value add nothing, if they have no clause. -/
theorem adds_none (hnone : fs.flatMap (derivedValues query) = []) :
    Adds query fs acc acc [] [] [] where
  clauses_eq := (List.append_nil _).symm
  params_eq := (List.append_nil _).symm
  reads := .nil
  names := rfl
  values := by rw [hnone]; rfl
  owner := fun _ hk => absurd hk List.not_mem_nil
  owned := fun f hf hne => absurd (List.flatMap_eq_nil_iff.mp hnone f hf) hne

theorem Adds.append {clauses clauses' : List Text} {keys keys' : List (List Text)} {es es' : Params}
    (h : Adds query fs acc acc' clauses keys es) (h' : Adds query gs acc' acc'' clauses' keys' es') :
    Adds query (fs ++ gs) acc acc'' (clauses ++ clauses') (keys ++ keys') (es ++ es') := by
  constructor
  case clauses_eq => rw [h'.clauses_eq, h.clauses_eq, List.append_assoc]
  case params_eq => rw [h'.params_eq, h.params_eq, List.append_assoc]
  case reads => exact List.rel_append h.reads h'.reads
  case names => rw [Params.names_append, h.names, h'.names, List.flatten_append]
  case values => rw [List.map_append, h.values, h'.values, List.flatMap_append, List.map_append]
  case owner =>
    intro k hk
    rw [Params.names_append, List.mem_append] at hk
    rcases hk with hk | hk
    · obtain ⟨f, hf, hown⟩ := h.owner k hk
      exact ⟨f, List.mem_append_left gs hf, hown⟩
    · obtain ⟨f, hf, hown⟩ := h'.owner k hk
      exact ⟨f, List.mem_append_right fs hf, hown⟩
  case owned =>
    intro f hf hne
    rw [Params.names_append]
    rcases List.mem_append.mp hf with hf | hf
    · obtain ⟨n, hn⟩ := h.owned f hf hne
      exact ⟨n, List.mem_append_left _ hn⟩
    · obtain ⟨n, hn⟩ := h'.owned f hf hne
      exact ⟨n, List.mem_append_right _ hn⟩

/-- One filter adds its clause and its parameters. -/
theorem adds_filterStep {f : FilterConfig} (hcol : Copied f.column) (hnum : Numbered acc.2)
    (h : filterStep query acc f = .ok acc') :
    Numbered acc'.2 ∧ ∃ clauses keys es, Adds query [f] acc acc' clauses keys es := by
  obtain ⟨hnum', clause, es, hadd, rfl⟩ := contribution_of_filterStep hnum h
  refine ⟨hnum', ?_⟩
  have hvalues := hadd.values
  cases hadd with
  | absent _ =>
      have hnone : derivedValues query f = [] := List.map_eq_nil_iff.mp hvalues.symm
      simp only [Option.toList_none, List.append_nil]
      exact ⟨[], [], [], adds_none (by rw [List.flatMap_singleton, hnone])⟩
  | @present v o es _ _ hes hkeys =>
      have hlen : es.names.length = (o.values (operand v).2).length := by
        have hlengths := congrArg List.length hes
        rwa [List.length_map, List.length_map, ← List.length_map (f := Prod.fst)] at hlengths
      -- a filter binds a value exactly if it has a name
      have hbinds : derivedValues query f ≠ [] ↔ es.names ≠ [] := by
        rw [ne_eq, ← List.map_eq_nil_iff, ← hvalues, List.map_eq_nil_iff, Params.names, ne_eq,
          List.map_eq_nil_iff]
      refine ⟨_, [es.names], es, rfl, rfl, ?_, ?_, ?_, ?_, ?_⟩
      · exact .cons (reads_clause hcol _ _ o hlen) .nil
      · rw [List.flatten_singleton]
      · rw [List.flatMap_singleton, hvalues]
      · intro k hk
        exact ⟨f, List.mem_singleton_self f, hbinds.mpr (List.ne_nil_of_mem hk), hkeys k hk⟩
      · intro g hg hne
        rw [List.mem_singleton.mp hg] at hne ⊢
        obtain ⟨k, hk⟩ := List.exists_mem_of_ne_nil _ (hbinds.mp hne)
        obtain ⟨n, rfl⟩ := hkeys k hk
        exact ⟨n, hk⟩

/-- The whole loop adds the clauses and the parameters of its filters. -/
theorem adds_filters (hcols : ∀ f ∈ fs, Copied f.column) (hnum : Numbered acc.2)
    (h : fs.foldlM (filterStep query) acc = .ok acc') :
    Numbered acc'.2 ∧ ∃ clauses keys es, Adds query fs acc acc' clauses keys es := by
  induction fs generalizing acc with
  | nil =>
      cases h
      exact ⟨hnum, [], [], [], adds_none rfl⟩
  | cons f fs ih =>
      rw [List.foldlM_cons, bind_eq_ok] at h
      obtain ⟨acc₁, hfirst, hrest⟩ := h
      obtain ⟨hnum₁, clauses, keys, es, hadds⟩ :=
        adds_filterStep (hcols f List.mem_cons_self) hnum hfirst
      obtain ⟨hnum', clauses', keys', es', hadds'⟩ :=
        ih (fun g hg => hcols g (List.mem_cons_of_mem f hg)) hnum₁ hrest
      exact ⟨hnum', _, _, _, hadds.append hadds'⟩

end Adds

/-! ## The SQL text -/

theorem copied_sortPart {c : QueryBuilderConfig} (hc : Whitelisted c) {token part : Text}
    (h : sortPart c token = .ok part) : Copied part := by
  unfold sortPart at h
  simp only at h
  split at h
  next _ => cases h
  next column hcolumn =>
    cases h
    obtain ⟨s, hs, rfl⟩ := Option.map_eq_some_iff.mp hcolumn
    have hmem : s ∈ c.sortableColumns := List.mem_reverse.mp (List.mem_of_find?_eq_some hs)
    refine (copied_of_safeIdent (hc.sortableColumns s hmem)).append ?_
    split <;> rfl

theorem copied_orderBy {c : QueryBuilderConfig} (hc : Whitelisted c) {raw order : Text}
    (h : orderBy c raw = .ok order) : Copied order := by
  unfold orderBy at h
  rcases ite_eq_ok h with ⟨-, h⟩ | ⟨-, h⟩
  · cases h
    rfl
  · obtain ⟨parts, hparts, h⟩ := bind_eq_ok.mp h
    cases h
    refine Copied.join (fun part hpart => ?_) rfl
    obtain ⟨token, -, htoken⟩ := mapM_eq_ok hparts part hpart
    exact copied_sortPart hc htoken

theorem copied_optional (p : Prop) [Decidable p] {t text : Text} (ht : Copied t)
    (hblank : t.head? = some ' ') (htext : Copied text) :
    Copied (if p then [] else t ++ text) ∧ Apart (if p then [] else t ++ text) := by
  split
  next _ => exact ⟨rfl, rfl⟩
  next _ =>
    refine ⟨ht.append htext, ?_⟩
    cases t with
    | nil => cases hblank
    | cons c t =>
        cases hblank
        rfl

theorem Whitelisted.copied_from {c : QueryBuilderConfig} (hc : Whitelisted c) :
    Copied ("SELECT ".toList ++ Strings.join c.select ", ".toList ++ " FROM ".toList ++ c.baseTable ++
      c.joins.flatMap joinText) := by
  have hselect : Copied (Strings.join c.select ", ".toList) :=
    Copied.join (fun sel hsel => copied_of_safeSelect (hc.select sel hsel)) rfl
  have hjoins : Copied (c.joins.flatMap joinText) :=
    Copied.flatMap fun j hj => copied_joinText (hc.joins j hj)
  have hfrom : Copied ("SELECT ".toList ++ Strings.join c.select ", ".toList ++ " FROM ".toList) :=
    (Copied.append (s := "SELECT ".toList) rfl hselect).append rfl
  exact (hfrom.append (copied_of_safeIdent hc.baseTable)).append hjoins

/-- The clauses read as the names of their parameters. -/
theorem Adds.reads_where {query : Values} {fs : List FilterConfig} {acc acc' : List Text × Params}
    {clauses : List Text} {keys : List (List Text)} {es : Params}
    (h : Adds query fs acc acc' clauses keys es) :
    Reads (if clauses = [] then [] else " WHERE ".toList ++ Strings.join clauses " AND ".toList)
      es.names := by
  have hreads := h.reads
  rw [h.names]
  split
  next hnil =>
    rw [hnil] at hreads
    cases hreads
    exact Copied.reads rfl
  next _ => exact Copied.append_reads rfl (Connectors.reads_join hreads rfl rfl)

/-- The SQL text reads as the names of the generated parameters. -/
theorem reads_build {c : QueryBuilderConfig} {query : Values} {sql : Text} {ps : Params}
    (h : build c query = .ok (sql, ps)) :
    Numbered ps ∧ Reads sql ps.names ∧
      ∃ clauses keys, Adds query c.filters ([], []) (clauses, ps) clauses keys ps := by
  obtain ⟨cs, order, hvalid, hwhere, horder, hsql⟩ := build_eq_ok h
  obtain rfl : sql = builtText c cs order := hsql
  have hc := validate_whitelists hvalid
  obtain ⟨_, _, hfold⟩ := bind_eq_ok.mp hwhere
  obtain ⟨hnum, clauses, keys, es, hadds⟩ :=
    adds_filters (fun f hf => copied_of_safeIdent (hc.filters f hf)) numbered_nil hfold
  obtain rfl : cs = clauses := hadds.clauses_eq
  obtain rfl : ps = es := hadds.params_eq
  refine ⟨hnum, ?_, cs, keys, hadds⟩
  have hgroup : Copied (Strings.join c.groupBy ", ".toList) :=
    Copied.join (fun g hg => copied_of_safeIdent (hc.groupBy g hg)) rfl
  obtain ⟨hgrouped, hgroupApart⟩ := copied_optional (c.groupBy = []) (t := " GROUP BY ".toList) rfl rfl hgroup
  obtain ⟨hordered, horderApart⟩ :=
    copied_optional (order = []) (t := " ORDER BY ".toList) rfl rfl (copied_orderBy hc horder)
  exact ((hc.copied_from.append_reads hadds.reads_where).append_copied hgrouped hgroupApart).append_copied
    hordered horderApart

/-! ## Binding the generated parameters -/

theorem filterMap_table {ps : Params} (hnodup : ps.names.Nodup) :
    ps.names.filterMap ps.table = ps.map Prod.snd := by
  rw [Params.names, List.filterMap_map, ← List.filterMap_eq_map]
  exact List.filterMap_congr fun e he => table_of_mem hnodup he

/-- `Bind` gives every generated parameter its one place in the SQL text and changes nothing
else, whatever the placeholders, and its arguments are the values the filters take from the
request, in the order of the clauses. -/
structure BindsExactly (c : QueryBuilderConfig) (query : Values) (sql : Text) (ps : Params) : Prop where
  once : ps.names.Nodup
  values : ps.map Prod.snd = (c.filters.flatMap (derivedValues query)).map .text
  binds : ∀ ph, ∃ out first rest,
    Connectors.bind sql ps.table ph = some (.ok (out, ps.map Prod.snd)) ∧
    Substitution ps.table ph .other sql out (ps.map Prod.snd) first rest ∧
    rest.map Prod.fst = ps.names

/-- A name that `sanitizeName` turns into an identifier. -/
def PlainName (name : Text) : Prop := ∀ c ∈ name, isIdentPart c = true ∨ c = '.' ∨ c = '-'

instance (name : Text) : Decidable (PlainName name) := List.decidableBAll _ name

theorem plainName_iff {name : Text} :
    PlainName name ↔ ∀ c ∈ sanitizeName name, isIdentPart c = true := by
  constructor
  · intro h x hx
    obtain ⟨c, hc, rfl⟩ := List.mem_map.mp hx
    split
    next _ => rfl
    next hne => exact (h c hc).resolve_right hne
  · intro h c hc
    have hx := h _ (List.mem_map_of_mem hc)
    split at hx
    next hsep => exact .inr hsep
    next _ => exact .inl hx

/-- The names of a filter's parameters are names for the binder if its own name is plain. -/
theorem isName_paramKey_iff {f : FilterConfig} {n : Nat} :
    IsName (paramKey (filterBase f) n) ↔ PlainName f.name := by
  rw [plainName_iff]
  constructor
  · intro h c hc
    exact h.2 c (List.mem_append_left _ (List.mem_append_right _ hc))
  · intro h
    refine ⟨rfl, fun c hc => ?_⟩
    rcases List.mem_append.mp hc with hbase | hnumber
    · rcases List.mem_append.mp hbase with hmark | hname
      · exact List.all_eq_true.mp (show "ddag_filter_".toList.all isIdentPart = true from rfl) c hmark
      · exact h c hname
    · rcases List.mem_cons.mp hnumber with rfl | hdigit
      · rfl
      · have hd := Strings.mem_digits (Strings.isDigit_decimal hdigit)
        exact List.all_eq_true.mp
          (show ['0', '1', '2', '3', '4', '5', '6', '7', '8', '9'].all isIdentPart = true from rfl) c hd

/-- The generated parameters bind exactly when every filter that binds a value has a name of
identifier runes, dots and hyphens. -/
theorem generated_bind_iff {c : QueryBuilderConfig} {query : Values} {sql : Text} {ps : Params}
    (h : build c query = .ok (sql, ps)) :
    BindsExactly c query sql ps ↔
      ∀ f ∈ c.filters, derivedValues query f ≠ [] → PlainName f.name := by
  obtain ⟨hnum, hreads, clauses, keys, hadds⟩ := reads_build h
  constructor
  · intro hbinds f hf hne
    obtain ⟨n, hn⟩ := hadds.owned f hf hne
    obtain ⟨out, first, rest, -, hsub, hrest⟩ := hbinds.binds Connectors.placeholderQuestion
    rw [← hrest] at hn
    obtain ⟨p, hp, hpname⟩ := List.mem_map.mp hn
    have hname := hsub.names p hp
    rw [hpname] at hname
    exact isName_paramKey_iff.mp hname
  · intro hplain
    have hnames : ∀ k ∈ ps.names, IsName k := by
      intro k hk
      obtain ⟨f, hf, hne, n, rfl⟩ := hadds.owner k hk
      exact isName_paramKey_iff.mpr (hplain f hf hne)
    obtain ⟨ts, hlex, hts⟩ := hreads.lexes hnames
    rw [← Connectors.bindForms_other] at hlex
    have hvalues : ∀ name ∈ Connectors.paramNames ts, ps.table name ≠ none := by
      intro name hname
      rw [hts] at hname
      obtain ⟨e, he, rfl⟩ := List.mem_map.mp hname
      rw [table_of_mem hnum.nodup he]
      exact Option.some_ne_none _
    have hargs : (Connectors.paramNames ts).filterMap ps.table = ps.map Prod.snd := by
      rw [hts, filterMap_table hnum.nodup]
    refine ⟨hnum.nodup, hadds.values, fun ph => ?_⟩
    refine ⟨Connectors.sqlText ph 0 ts, (Connectors.pieces ts).1, (Connectors.pieces ts).2, ?_, ?_, ?_⟩
    · exact (Connectors.bindDialect_eq_ok_iff ps.table ph).mpr ⟨ts, hlex, hvalues, rfl, hargs.symm⟩
    · rw [← hargs]
      exact Connectors.substitution_of_lexes hlex hvalues
    · rw [← Connectors.paramNames_eq_pieces, hts]

/-- A configuration with one filter on the column `name`. -/
def sitesConfig (filter : String) : QueryBuilderConfig where
  baseTable := "sites".toList
  select := ["id".toList]
  joins := []
  groupBy := []
  filters := [{ name := filter.toList, column := "name".toList, operators := ["like".toList] }]
  sortableColumns := []
  defaultSort := []

theorem dotted_filter_binds :
    BindsExactly (sitesConfig "site.name") (oneValue "site.name" "like:oslo")
      "SELECT id FROM sites WHERE name LIKE :ddag_filter_site_name_0".toList
      [("ddag_filter_site_name_0".toList, .text "%oslo%".toList)] := by
  refine (generated_bind_iff (by decide +kernel)).mpr fun f hf _ => ?_
  rw [List.mem_singleton.mp hf]
  show PlainName "site.name".toList
  decide

/-- A filter whose name has a blank: the binder reads only the first word of the reference. -/
theorem blank_filter_missing :
    let c := sitesConfig "site name"
    let query := oneValue "site name" "like:oslo"
    let sql := "SELECT id FROM sites WHERE name LIKE :ddag_filter_site name_0".toList
    let ps : Params := [("ddag_filter_site name_0".toList, .text "%oslo%".toList)]
    validate c = .ok () ∧ build c query = .ok (sql, ps) ∧
      Connectors.bind sql ps.table Connectors.placeholderDollar =
        some (.error "missing value for parameter :ddag_filter_site".toList) ∧
      ¬ BindsExactly c query sql ps := by
  intro c query sql ps
  have herror : Connectors.bind sql ps.table Connectors.placeholderDollar =
      some (.error "missing value for parameter :ddag_filter_site".toList) := by decide +kernel
  refine ⟨by decide +kernel, by decide +kernel, herror, fun hbinds => ?_⟩
  obtain ⟨out, first, rest, hbind, -, -⟩ := hbinds.binds Connectors.placeholderDollar
  rw [herror] at hbind
  cases hbind

end DDAG.Gateway
