import DDAG.GatewaySvc.RequestLog
import DDAG.Lib.Strings
import DDAG.Secret.Envelope
import Mathlib.Data.List.Nodup

/-!
# The insert of a batch of request logs

`InsertRequestLogBatch` and `itoa` of `internal/store/logs.go`.  A batch is one `INSERT` with one
tuple of placeholders for each record.  The text of the statement and its arguments are built side by
side, and a placeholder names its argument by position.  An index out of range panics, which is `none`.

* `itoa_eq_decimal`: the numerals that `itoa` writes.
* `batch_statement`: the placeholders of a batch name the columns of its records.
* `logged_batches_insert`: every batch of a request logger becomes such a statement.
-/

namespace DDAG.Store

open Machine
open GatewaySvc.RequestLog (LogEvent logStep newRequestLogger runs_inv)
open Secret (UUID)

/-! ## Numerals -/

/-- The loop of `itoa`, which has written the digits from the index `i` on. -/
def itoaLoop : Nat → Int → List Char → Option Text
  | i, n, b =>
      if 0 < n then
        match i with
        | 0 => none
        | i + 1 => itoaLoop i (n / 10) (b.set i (Char.ofNat ('0'.toNat + (n % 10).toNat)))
      else some (b.drop i)

def itoa (n : Int) : Option Text :=
  if n = 0 then some "0".toList else itoaLoop 20 n (List.replicate 20 (Char.ofNat 0))

/-! ## Records -/

/-- The fields of a request log that are stored. -/
structure APIRequestLog where
  requestID : Text
  clientID : Option UUID
  apiDefinitionID : Option UUID
  clientLabel : Text
  apiLabel : Text
  method : Text
  path : Text
  statusCode : Int
  errorCode : Text
  latencyMS : Int
  cached : Bool
  operation : Text
  sourceDBDurationMS : Int
  ipAddress : Text
deriving DecidableEq

/-- An argument of a statement. -/
inductive Arg where
  | text (s : Text)
  | uuid (id : Option UUID)
  | int (n : Int)
  | bool (b : Bool)
deriving DecidableEq

/-- The columns that a batch sets. -/
inductive Column where
  | requestID
  | clientID
  | apiDefinitionID
  | clientLabel
  | apiLabel
  | method
  | path
  | statusCode
  | errorCode
  | latencyMS
  | cached
  | operation
  | sourceDBDurationMS
  | ipAddress
deriving DecidableEq

def Column.name : Column → Text
  | .requestID => "request_id".toList
  | .clientID => "client_id".toList
  | .apiDefinitionID => "api_definition_id".toList
  | .clientLabel => "client_label".toList
  | .apiLabel => "api_label".toList
  | .method => "method".toList
  | .path => "path".toList
  | .statusCode => "status_code".toList
  | .errorCode => "error_code".toList
  | .latencyMS => "latency_ms".toList
  | .cached => "cached".toList
  | .operation => "operation".toList
  | .sourceDBDurationMS => "source_db_duration_ms".toList
  | .ipAddress => "ip_address".toList

/-- What a record has in a column. -/
def Column.value (r : APIRequestLog) : Column → Arg
  | .requestID => .text r.requestID
  | .clientID => .uuid r.clientID
  | .apiDefinitionID => .uuid r.apiDefinitionID
  | .clientLabel => .text r.clientLabel
  | .apiLabel => .text r.apiLabel
  | .method => .text r.method
  | .path => .text r.path
  | .statusCode => .int r.statusCode
  | .errorCode => .text r.errorCode
  | .latencyMS => .int r.latencyMS
  | .cached => .bool r.cached
  | .operation => .text r.operation
  | .sourceDBDurationMS => .int r.sourceDBDurationMS
  | .ipAddress => .text r.ipAddress

/-! ## The statement -/

def cols : Nat := 14

def insertHeader : Text :=
  "INSERT INTO api_request_logs (".toList ++
    "request_id, client_id, api_definition_id, client_label,\n\t\t".toList ++
    "api_label, method, path, status_code, error_code, ".toList ++
    "latency_ms, cached, operation, source_db_duration_ms,\n\t\t".toList ++
    "ip_address) VALUES ".toList

/-- The arguments of a record, in the order the source appends them. -/
def recordArgs (r : APIRequestLog) : List Arg :=
  [.text r.requestID, .uuid r.clientID, .uuid r.apiDefinitionID, .text r.clientLabel, .text r.apiLabel,
    .text r.method, .text r.path, .int r.statusCode, .text r.errorCode, .int r.latencyMS, .bool r.cached,
    .text r.operation, .int r.sourceDBDurationMS, .text r.ipAddress]

structure Statement where
  sql : Text
  args : List Arg

/-- A pass of the loop over the columns. -/
def writePlaceholder (i : Nat) (b : Text) (j : Nat) : Option Text := do
  let b := if 0 < j then b ++ [','] else b
  let digits ← itoa (i * cols + j + 1 : Nat)
  return b ++ ['$'] ++ digits

/-- A pass of the loop over the records. -/
def writeRecord (st : Statement) (record : APIRequestLog × Nat) : Option Statement := do
  let (r, i) := record
  let b := if 0 < i then st.sql ++ [','] else st.sql
  let b ← (List.range cols).foldlM (writePlaceholder i) (b ++ ['('])
  return { sql := b ++ [')'], args := st.args ++ recordArgs r }

/-- The statement that is executed, if there is one. -/
def insertRequestLogBatch (rs : List APIRequestLog) : Option (Option Statement) :=
  if rs.length = 0 then some none
  else (rs.zipIdx.foldlM writeRecord { sql := insertHeader, args := [] }).map some

/-! ## What `itoa` writes -/

theorem digit_eq : ∀ d < 10, Char.ofNat ('0'.toNat + d) = Nat.digitChar d := by
  decide

/-- The digits of a number that is not zero, and none of zero. -/
def digitsOf (n : Nat) : Text := if n = 0 then [] else Strings.decimal n

theorem digitsOf_pos {n : Nat} (h : 0 < n) : digitsOf n = digitsOf (n / 10) ++ [Nat.digitChar (n % 10)] := by
  unfold digitsOf
  rw [if_neg (Nat.ne_of_gt h), Strings.decimal]
  split
  next hlast =>
    have hlt : n < 10 := by omega
    rw [Nat.toDigits_of_lt_base hlt, Nat.mod_eq_of_lt hlt]
    rfl
  next hmore => exact Nat.toDigits_of_base_le (by omega) (by omega)

/-- The digits of what is left go in front of those written, and a number of at most `i` digits does
not run out of the buffer. -/
theorem itoaLoop_eq (i n : Nat) (b : List Char) (hlen : i ≤ b.length) (hn : n < 10 ^ i) :
    itoaLoop i n b = some (digitsOf n ++ b.drop i) := by
  induction i generalizing n b with
  | zero =>
      have hzero : n = 0 := by omega
      subst hzero
      rfl
  | succ i ih =>
      rw [itoaLoop]
      split
      next hpos =>
        have hdigit : Char.ofNat ('0'.toNat + ((n : Int) % 10).toNat) = Nat.digitChar (n % 10) :=
          digit_eq (n % 10) (Nat.mod_lt n (by omega))
        have hleft : n / 10 < 10 ^ i := Nat.div_lt_of_lt_mul (by rwa [Nat.pow_succ'] at hn)
        have hdrop : (b.set i (Nat.digitChar (n % 10))).drop i = Nat.digitChar (n % 10) :: b.drop (i + 1) := by
          rw [List.drop_eq_getElem_cons (by rwa [List.length_set]), List.getElem_set_self,
            List.drop_set_of_lt (by omega)]
        have hrest := ih (n / 10) (b.set i (Nat.digitChar (n % 10))) (by rw [List.length_set]; omega) hleft
        rw [hdrop] at hrest
        rw [hdigit, digitsOf_pos (by omega), List.append_assoc]
        exact hrest
      next hzero =>
        have hn0 : n = 0 := by omega
        subst hn0
        rfl

/-- `itoa` writes the decimal numerals of all integers from 0 on. -/
theorem itoa_eq_decimal (n : Nat) (hn : n < 10 ^ 20) : itoa n = some (Strings.decimal n) := by
  unfold itoa
  split
  next hzero =>
    cases Int.ofNat_eq_zero.mp hzero
    rfl
  next hne =>
    rw [itoaLoop_eq 20 n _ (by simp) hn, digitsOf, if_neg (by omega)]
    simp

/-! ## What the loops write -/

/-- The placeholder of the argument at a position, counted from 1. -/
def placeholder (k : Nat) : Text := '$' :: Strings.decimal k

def tuple (i : Nat) : List Text := (List.range cols).map fun j => placeholder (i * cols + j + 1)

def tupleText (t : List Text) : Text := '(' :: Strings.join t [','] ++ [')']

def batchStatement (rs : List APIRequestLog) : Statement where
  sql := insertHeader ++ Strings.join (((List.range rs.length).map tuple).map tupleText) [',']
  args := rs.flatMap recordArgs

theorem foldlM_writePlaceholder (i n : Nat) (b : Text) (h : i * cols + n < 10 ^ 20) :
    (List.range n).foldlM (writePlaceholder i) b =
      some (b ++ Strings.join ((List.range n).map fun j => placeholder (i * cols + j + 1)) [',']) := by
  induction n with
  | zero => simp
  | succ n ih =>
      rw [List.range_succ, List.foldlM_append, ih (by omega), List.map_append, List.map_singleton,
        Strings.join_concat]
      simp only [Option.bind_eq_bind, Option.bind_some, List.foldlM_cons, List.foldlM_nil, writePlaceholder,
        itoa_eq_decimal _ (show i * cols + n + 1 < 10 ^ 20 by omega), Option.pure_def, placeholder]
      -- the first placeholder alone has no comma before it
      cases n with
      | zero => simp
      | succ n => simp [List.range_succ]

theorem writeRecord_eq (st : Statement) (r : APIRequestLog) {i : Nat} (h : i * cols + cols < 10 ^ 20) :
    writeRecord st (r, i) = some {
      sql := (if 0 < i then st.sql ++ [','] else st.sql) ++ tupleText (tuple i)
      args := st.args ++ recordArgs r } := by
  simp only [writeRecord, foldlM_writePlaceholder i cols _ h, Option.bind_eq_bind, Option.bind_some,
    Option.pure_def, tupleText, tuple, List.append_assoc, List.cons_append, List.nil_append]

theorem foldlM_writeRecord (rs : List APIRequestLog) (h : rs.length * cols < 10 ^ 20) :
    rs.zipIdx.foldlM writeRecord { sql := insertHeader, args := [] } = some (batchStatement rs) := by
  induction rs using List.reverseRecOn with
  | nil => simp [batchStatement]
  | append_singleton rs r ih =>
      rw [List.length_append, List.length_singleton, Nat.add_mul, Nat.one_mul] at h
      rw [List.zipIdx_append, List.foldlM_append, ih (by omega), batchStatement, batchStatement,
        List.length_append, List.length_singleton, List.range_succ, List.map_append, List.map_append,
        List.map_singleton, List.map_singleton, Strings.join_concat]
      simp only [Option.bind_eq_bind, Option.bind_some, List.zipIdx_singleton, List.foldlM_cons, List.foldlM_nil,
        Nat.zero_add, writeRecord_eq _ r h, Option.pure_def]
      -- the first record alone has no comma before it
      cases rs with
      | nil => simp
      | cons r' rs => simp

/-! ## What the placeholders name -/

/-- The columns, in the order of the statement. -/
def columns : List Column :=
  [.requestID, .clientID, .apiDefinitionID, .clientLabel, .apiLabel, .method, .path, .statusCode, .errorCode,
    .latencyMS, .cached, .operation, .sourceDBDurationMS, .ipAddress]

/-- The names between the first parentheses of a statement. -/
def listedColumns (sql : Text) : List Text :=
  (Strings.split (((sql.dropWhile (· ≠ '(')).drop 1).takeWhile (· ≠ ')')) ',').map Strings.trimSpace

theorem listedColumns_insertHeader : listedColumns insertHeader = columns.map Column.name := by
  decide +kernel

theorem recordArgs_eq (r : APIRequestLog) : recordArgs r = columns.map (Column.value r) := rfl

/-- A statement with its tuples of placeholders: each placeholder of a tuple names the column at its
place in the record, and each argument is named once. -/
structure Inserts (rs : List APIRequestLog) (tuples : List (List Text)) (st : Statement) : Prop where
  sql : st.sql = insertHeader ++ Strings.join (tuples.map tupleText) [',']
  length : tuples.length = rs.length
  width : ∀ t ∈ tuples, t.length = cols
  named : ∀ (i j : Nat) (r : APIRequestLog) (c : Column), rs[i]? = some r → columns[j]? = some c →
    ∃ t, tuples[i]? = some t ∧ t[j]? = some (placeholder (i * cols + j + 1)) ∧
      st.args[i * cols + j]? = some (c.value r)
  only : ∀ t ∈ tuples.flatten, ∃ k, 1 ≤ k ∧ k ≤ st.args.length ∧ t = placeholder k
  once : ∀ k, 1 ≤ k → k ≤ st.args.length → tuples.flatten.count (placeholder k) = 1

theorem length_flatMap_block {α β : Type*} {f : α → List β} {m : Nat} (hf : ∀ a, (f a).length = m)
    (l : List α) : (l.flatMap f).length = l.length * m := by
  induction l with
  | nil => simp
  | cons a l ih => rw [List.flatMap_cons, List.length_append, hf, ih, List.length_cons, Nat.succ_mul, Nat.add_comm]

/-- Blocks of one length follow each other. -/
theorem getElem?_flatMap_block {α β : Type*} {f : α → List β} {m : Nat} (hf : ∀ a, (f a).length = m)
    {l : List α} {i : Nat} {a : α} (h : l[i]? = some a) {j : Nat} (hj : j < m) :
    (l.flatMap f)[i * m + j]? = (f a)[j]? := by
  induction l generalizing i with
  | nil => simp at h
  | cons b l ih =>
      rw [List.flatMap_cons]
      cases i with
      | zero =>
          cases h
          rw [Nat.zero_mul, Nat.zero_add, List.getElem?_append_left (by rwa [hf])]
      | succ i =>
          have hindex : (i + 1) * m + j = m + (i * m + j) := by rw [Nat.succ_mul]; omega
          rw [hindex, List.getElem?_append_right (by rw [hf]; omega), hf, Nat.add_sub_cancel_left]
          exact ih h

theorem flatten_tuples (n : Nat) :
    ((List.range n).map tuple).flatten = (List.range' 1 (n * cols)).map placeholder := by
  induction n with
  | zero => rfl
  | succ n ih =>
      have htuple : tuple n = (List.range' (1 + n * cols) cols).map placeholder := by
        rw [tuple, List.range'_eq_map_range, List.map_map]
        refine List.map_congr_left fun j _ => congrArg placeholder ?_
        show n * cols + j + 1 = 1 + n * cols + j
        omega
      rw [List.range_succ, List.map_append, List.flatten_append, ih, List.map_singleton,
        List.flatten_singleton, htuple, ← List.map_append, Nat.succ_mul, ← List.range'_append, Nat.one_mul]

theorem placeholder_inj {k l : Nat} (h : placeholder k = placeholder l) : k = l :=
  Strings.decimal_inj (List.cons.inj h).2

theorem length_recordArgs (r : APIRequestLog) : (recordArgs r).length = cols := rfl

theorem batch_inserts {rs : List APIRequestLog} (hne : rs ≠ []) (h : rs.length * cols < 10 ^ 20) :
    ∃ st tuples, insertRequestLogBatch rs = some (some st) ∧ Inserts rs tuples st ∧
      st.args.length = rs.length * cols := by
  have hargs : (batchStatement rs).args.length = rs.length * cols := length_flatMap_block length_recordArgs rs
  refine ⟨batchStatement rs, (List.range rs.length).map tuple, ?_, ⟨rfl, ?_, ?_, ?_, ?_, ?_⟩, hargs⟩
  · rw [insertRequestLogBatch, if_neg (by simpa using hne), foldlM_writeRecord rs h]
    rfl
  · rw [List.length_map, List.length_range]
  · intro t ht
    obtain ⟨i, _, rfl⟩ := List.mem_map.mp ht
    rw [tuple, List.length_map, List.length_range]
  · intro i j r c hr hc
    have hi : i < rs.length := (List.getElem?_eq_some_iff.mp hr).1
    have hj : j < cols := (List.getElem?_eq_some_iff.mp hc).1
    refine ⟨tuple i, ?_, ?_, ?_⟩
    · rw [List.getElem?_map, List.getElem?_range hi]
      rfl
    · rw [tuple, List.getElem?_map, List.getElem?_range hj]
      rfl
    · rw [batchStatement, getElem?_flatMap_block length_recordArgs hr hj, recordArgs_eq, List.getElem?_map, hc]
      rfl
  · intro t ht
    rw [flatten_tuples] at ht
    obtain ⟨k, hk, rfl⟩ := List.mem_map.mp ht
    rw [List.mem_range'_1] at hk
    exact ⟨k, hk.1, by rw [hargs]; omega, rfl⟩
  · intro k hk hle
    rw [hargs] at hle
    rw [flatten_tuples]
    refine List.count_eq_one_of_mem ?_ ?_
    · exact (List.nodup_range').map fun _ _ => placeholder_inj
    · exact List.mem_map_of_mem (List.mem_range'_1.mpr ⟨hk, by omega⟩)

/-- PostgreSQL binds no more arguments than this. -/
def maxParameters : Nat := 65535

theorem batch_binds {rs : List APIRequestLog} (hne : rs ≠ []) (h : rs.length ≤ 4000) :
    ∃ st tuples, insertRequestLogBatch rs = some (some st) ∧ Inserts rs tuples st ∧
      st.args.length ≤ maxParameters := by
  have hsmall : rs.length * cols ≤ 4000 * cols := Nat.mul_le_mul_right cols h
  have hmax : 4000 * cols ≤ maxParameters := by decide
  have hpow : maxParameters < 10 ^ 20 := by decide
  obtain ⟨st, tuples, hbuilt, hins, hargs⟩ := batch_inserts hne (by omega)
  exact ⟨st, tuples, hbuilt, hins, by omega⟩

/-- A batch of at most 4000 records is no statement when it is empty.  Otherwise it is one statement
with a tuple for each record, in which the placeholder at a place of a tuple is the numeral of the
position of that column of that record, each position is used once, and PostgreSQL can bind them.  The
numerals are those of `itoa`, for every integer that is not negative. -/
theorem batch_statement (rs : List APIRequestLog) (hlen : rs.length ≤ 4000) :
    (if rs = [] then insertRequestLogBatch rs = some none
      else ∃ st tuples, insertRequestLogBatch rs = some (some st) ∧ Inserts rs tuples st ∧
        st.args.length ≤ 65535) ∧
    listedColumns insertHeader = columns.map Column.name ∧
    ∀ n : Int, 0 ≤ n → n ≤ 2 ^ 63 - 1 → itoa n = some (Strings.decimal n.toNat) := by
  refine ⟨?_, listedColumns_insertHeader, fun n hn hmax => ?_⟩
  · split
    next hempty =>
      subst hempty
      rfl
    next hne => exact batch_binds hne hlen
  · lift n to Nat using hn
    exact itoa_eq_decimal n (by omega)

/-- Two records. -/
theorem two_records_inserted :
    let r : APIRequestLog :=
      { requestID := "r".toList, clientID := none, apiDefinitionID := none, clientLabel := [], apiLabel := [],
        method := "GET".toList, path := "/a".toList, statusCode := 200, errorCode := [], latencyMS := 3,
        cached := false, operation := "read".toList, sourceDBDurationMS := 1, ipAddress := [] }
    [r, r].length ≤ 4000 ∧ ∃ st tuples, insertRequestLogBatch [r, r] = some (some st) ∧
      Inserts [r, r] tuples st ∧ st.args.length ≤ 65535 := by
  intro r
  have hlen : [r, r].length ≤ 4000 := by simp
  have hbatch := (batch_statement [r, r] hlen).1
  rw [if_neg (List.cons_ne_nil _ _)] at hbatch
  exact ⟨hlen, hbatch⟩

/-- In every state of every run of a request logger, each batch that it passed on became one
statement that inserts its records. -/
theorem logged_batches_insert (bufferSize batchSize : Int) (es : List (LogEvent APIRequestLog)) :
    Along logStep
      (fun l => ∀ rs ∈ l.calls, ∃ st tuples, insertRequestLogBatch rs = some (some st) ∧
        Inserts rs tuples st ∧ st.args.length ≤ maxParameters)
      (newRequestLogger APIRequestLog bufferSize batchSize) es := by
  refine Along.of_runs fun es l hrun rs hrs => ?_
  obtain ⟨hne, hle⟩ := (runs_inv hrun).batches rs hrs
  exact batch_binds hne (Nat.le_trans hle l.sizes.batch_le)

end DDAG.Store
