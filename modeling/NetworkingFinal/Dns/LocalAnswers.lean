/-
  NetworkingFinal.Dns.LocalAnswers

  Queries whose names all have an active record: the response is made here, and
  decodes to one A / IN answer for each question, as long as its pointers fit into
  the byte they are given.

  - `requestHandler_of_activeRecords`: the handler sends the encoded local response.
  - `localResponse_decodes`: an encoded local response decodes to the same answers.
  - `local_answers_iff`: exactly when the client can read its answers.
-/
import NetworkingFinal.Dns.Handlers
import NetworkingFinal.Dns.Wire

namespace NetworkingFinal
namespace Dns

open Py Py.Prog Py.Struct
open Lib (Placed)

/-- A query for legal names, as the decoder builds it from a datagram. -/
structure DNSPacket.IsQuery (p : DNSPacket) : Prop where
  transactionID : p.transactionID.length = 2
  flags : p.flags.Fits
  count : p.queriesCount = p.queriesRecords.length
  questions : ∀ q ∈ p.queriesRecords, q.Legal

/-- The response made from local answers alone. -/
def localResponse (query : DNSPacket) (answers : List DNSAnswerRecord) : DNSPacket :=
  { emptyResponse query with
    flags := { query.flags with
      isResponse := true, authoritative := false, recavail := true, authenticated := false,
      checkdisable := false }
    queriesRecords := query.queriesRecords
    answersRecords := answers
    answersCount := answers.length }

/-- The answer carries the record. -/
structure DNSAnswerRecord.Carries (r : RecordData) (a : DNSAnswerRecord) : Prop where
  domainName : a.domainName = r.domainName
  type : a.type = typeA
  clase : a.clase = 1
  ttl : a.ttl = r.ttl
  length : a.rData.length = 4
  address : ipBytesToStr a.rData = .ok r.ipAddress

/-- The answer made from a record with a dotted-quad address. -/
theorem carries_of_dottedQuad {r : RecordData} (h : DottedQuad r.ipAddress) :
    ∃ rData, ipStrToBytes r.ipAddress = .ok rData ∧
      DNSAnswerRecord.Carries r ⟨r.domainName, DNSAnswerRecord.typeA, 1, r.ttl, rData⟩ := by
  obtain ⟨packed, hpacked⟩ := h
  exact ⟨packed, ipStrToBytes_of_inetNtoa hpacked, rfl, rfl, rfl, rfl, length_of_inetNtoa hpacked,
    ipBytesToStr_of_inetNtoa hpacked⟩

/-- Records with a dotted-quad address become answers that carry them. -/
theorem localAnswers_of_dottedQuad {records : List RecordData}
    (h : ∀ r ∈ records, DottedQuad r.ipAddress) :
    ∃ answers, localAnswers (records.map some) = .ok answers ∧
      List.Forall₂ DNSAnswerRecord.Carries records answers := by
  induction records with
  | nil => exact ⟨[], rfl, .nil⟩
  | cons r records ih =>
      obtain ⟨rData, hrData, hfirst⟩ := carries_of_dottedQuad (h r List.mem_cons_self)
      obtain ⟨answers, hanswers, hcarries⟩ := ih fun x hx => h x (List.mem_cons_of_mem _ hx)
      refine ⟨_, by
        rw [List.map_cons, localAnswers, hrData, except_ok_bind, hanswers, except_ok_bind,
          except_pure], .cons hfirst hcarries⟩

/-- The handler sends the encoded local response. -/
theorem requestHandler_of_activeRecords {query : DNSPacket} {clientAddress : Address}
    {o : Outside} {s : State} {records : List RecordData} {answers : List DNSAnswerRecord}
    (hcount : query.queriesCount = query.queriesRecords.length)
    (hlocal : s.database.activeRecords o.looks 0 query.queriesRecords = some records)
    (hanswers : localAnswers (records.map some) = .ok answers) :
    requestHandler query clientAddress o s =
      match (localResponse query answers).toBytes with
      | .ok data => .ok () (s.sending ⟨localResponse query answers, data, clientAddress⟩)
      | .error e => .error e s := by
  have hfound : findLocals o.looks 0 query.queriesRecords (.start query) s =
      .ok { locals := records.map some, queriesRecords := [], missing := 0 } s := by
    have h := @findLocals_of_activeRecords o.looks s query.queriesRecords records [] [] hlocal
    rw [List.map_nil, List.nil_append, List.nil_append] at h
    rw [Found.start, hcount]
    exact h
  have hresponse : createResponse query none (records.map some) =
      .ok (localResponse query answers) := by
    rw [createResponse, hanswers]
    rfl
  have hforward : forward query { locals := records.map some, queriesRecords := [], missing := 0 } o
      s = .ok none s := by
    rw [forward, if_neg (Int.lt_irrefl 0)]
    rfl
  rw [requestHandler, bind_of_ok hfound, bind_of_ok hforward, lift_ok_bind hresponse]
  cases (localResponse query answers).toBytes with
  | ok data => rfl
  | error e => rfl

-- ============================================================================
-- Encoding and decoding it
-- ============================================================================

/-- The names both sides know after the questions. -/
def DNSPacket.questionNames (p : DNSPacket) : DomainNames :=
  namesAfter p.queriesRecords 12 Dict.empty

/-- The owner of every answer stands at an offset of one byte. -/
def Pointed (names : DomainNames) (answers : List DNSAnswerRecord) : Prop :=
  ∀ a ∈ answers, a.Fits ∧ ∃ pointer, names.get? a.domainName = some pointer ∧ pointer < 256

section Response

variable {query : DNSPacket} {answers : List DNSAnswerRecord}

/-- The response is its header, the questions, and the answers under their names. -/
theorem localResponse_toBytes (hquery : query.IsQuery)
    (hcount : query.queriesRecords.length < 65536) (hlength : answers.length < 65536) :
    ∃ flags counts, flags.length = 2 ∧
      pack .big [.H, .H, .H, .H] [query.queriesCount, answers.length, 0, 0] = .ok counts ∧
      (localResponse query answers).toBytes =
        (writeAnswers answers (query.transactionID ++ (flags ++ counts) ++
          questionBytes query.queriesRecords) query.questionNames).map Prod.fst := by
  have hflags : (localResponse query answers).flags.Fits :=
    ⟨hquery.flags.opcode, hquery.flags.rcode⟩
  obtain ⟨b1, b2, hbytes⟩ := DNSFlags.toBytes_of_fits hflags
  have hqueries : query.queriesCount < 65536 := by
    rw [hquery.count]
    exact hcount
  have hfits : List.Forall₂ Code.Fits [.H, .H, .H, .H]
      [query.queriesCount, answers.length, 0, 0] :=
    .cons hqueries (.cons hlength (.cons (by decide) (.cons (by decide) .nil)))
  obtain ⟨counts, hcounts⟩ := pack_of_fits .big hfits
  have hhead : (query.transactionID ++ ([b1, b2] ++ counts)).length = 12 := by
    have hcountsLen : counts.length = 8 := pack_length hcounts
    rw [List.length_append, List.length_append, hquery.transactionID, hcountsLen]
    rfl
  have hquestions : writeQueries query.queriesRecords
      (query.transactionID ++ ([b1, b2] ++ counts)) Dict.empty =
      .ok (query.transactionID ++ ([b1, b2] ++ counts) ++ questionBytes query.queriesRecords,
        query.questionNames) := by
    rw [writeQueries_wire hquery.questions, hhead]
    rfl
  refine ⟨[b1, b2], counts, rfl, hcounts, ?_⟩
  simp only [DNSPacket.toBytes, hbytes, except_ok_bind]
  simp only [localResponse, emptyResponse, hcounts, except_ok_bind, hquestions, List.append_nil]
  cases writeAnswers answers _ query.questionNames with
  | ok written => rfl
  | error e => rfl

/-- A response that encodes has its owners at offsets of one byte. -/
theorem pointed_of_toBytes (hquery : query.IsQuery)
    (htype : ∀ a ∈ answers, a.type ≠ DNSAnswerRecord.typeCNAME)
    (hcount : query.queriesRecords.length < 65536) (hlength : answers.length < 65536)
    {data : Bytes} (h : (localResponse query answers).toBytes = .ok data) :
    Pointed query.questionNames answers := by
  obtain ⟨flags, counts, -, -, hbytes⟩ := localResponse_toBytes hquery hcount hlength
  rw [hbytes] at h
  cases hwritten : writeAnswers answers (query.transactionID ++ (flags ++ counts) ++
      questionBytes query.queriesRecords) query.questionNames with
  | ok written => exact fits_of_writeAnswers htype hwritten
  | error e =>
      rw [hwritten] at h
      cases h

/-- A response whose owners are at offsets of one byte encodes, and decodes to itself
    with the names of its questions. -/
theorem localResponse_decodes (hquery : query.IsQuery)
    (htype : ∀ a ∈ answers, a.type ≠ DNSAnswerRecord.typeCNAME)
    (hcount : query.queriesRecords.length < 65536) (hlength : answers.length < 65536)
    (hpointed : Pointed query.questionNames answers) :
    ∃ data flags, (localResponse query answers).toBytes = .ok data ∧
      DNSPacket.fromBytes data =
        .ok { localResponse query answers with flags, domainNames := query.questionNames } := by
  obtain ⟨flags, counts, hflagsLen, hcounts, hbytes⟩ :=
    localResponse_toBytes hquery hcount hlength
  have hcountsLen : counts.length = 8 := pack_length hcounts
  have hhead : (query.transactionID ++ (flags ++ counts)).length = 12 := by
    rw [List.length_append, List.length_append, hquery.transactionID, hflagsLen, hcountsLen]
  have hbefore : NamesBefore query.questionNames
      (12 + (questionBytes query.queriesRecords).length) :=
    namesBefore_namesAfter (NamesBefore.empty 12) _
  rw [writeAnswers_wire htype hpointed] at hbytes
  obtain ⟨read, hread⟩ : ∃ read, DNSFlags.fromBytes flags = .ok read := by
    match flags, hflagsLen with
    | [b1, b2], _ => exact ⟨_, rfl⟩
  refine ⟨_, read, hbytes, ?_⟩
  -- the parts of the message stand where the decoder looks for them
  generalize hdata : query.transactionID ++ (flags ++ counts) ++
    questionBytes query.queriesRecords ++ answerBytes query.questionNames answers = data
  have hplaced : Placed data 0 (query.transactionID ++ (flags ++ counts) ++
      questionBytes query.queriesRecords ++ answerBytes query.questionNames answers) := by
    rw [hdata]
    exact List.prefix_refl data
  have hid : slice data 0 2 = query.transactionID := by
    have := slice_placed hplaced.left.left.left
    rwa [hquery.transactionID, Nat.zero_add] at this
  have hflagsAt : slice data 2 4 = flags := by
    have := slice_placed hplaced.left.left.right.left
    rwa [hquery.transactionID, hflagsLen] at this
  have hcountsAt : Placed data 4 counts := by
    have := hplaced.left.left.right.right
    rwa [hquery.transactionID, hflagsLen] at this
  have hquestionsAt : Placed data 12 (questionBytes query.queriesRecords) := by
    have := hplaced.left.right
    rwa [hhead] at this
  have hanswersAt : Placed data (12 + (questionBytes query.queriesRecords).length)
      (answerBytes query.questionNames answers) := by
    have := hplaced.right
    rwa [List.length_append, hhead, Nat.zero_add] at this
  have hunpack := unpackFrom_placed hcounts hcountsAt
  have hreadQuestions : readRecords (DNSQueryRecord.fromBytes data) query.queriesRecords.length 12
      Dict.empty = .ok (query.queriesRecords, 12 + (questionBytes query.queriesRecords).length,
        query.questionNames) := readRecords_questions hquery.questions hquestionsAt Dict.empty
  have hreadAnswers := readRecords_answers htype hbefore hpointed hanswersAt
  show DNSPacket.fromBytes data = _
  simp only [DNSPacket.fromBytes, hunpack, norms, Code.norm, except_ok_bind, hflagsAt, hread, hid,
    hquery.count, hreadQuestions, hreadAnswers, readRecords, except_pure, localResponse,
    emptyResponse]

end Response

-- ============================================================================
-- When the client can read its answers
-- ============================================================================

/-- Every answer carries a record, and every record is carried. -/
theorem carries_mem {records : List RecordData} {answers : List DNSAnswerRecord}
    (h : List.Forall₂ DNSAnswerRecord.Carries records answers) :
    (∀ a ∈ answers, ∃ r ∈ records, DNSAnswerRecord.Carries r a) ∧
      ∀ r ∈ records, ∃ a ∈ answers, DNSAnswerRecord.Carries r a := by
  induction h with
  | nil => simp
  | @cons r a records answers hcarries _ ih =>
      obtain ⟨hleft, hright⟩ := ih
      constructor
      · intro x hx
        rcases List.mem_cons.mp hx with rfl | hx
        · exact ⟨r, List.mem_cons_self, hcarries⟩
        · obtain ⟨y, hy, hyx⟩ := hleft x hx
          exact ⟨y, List.mem_cons_of_mem _ hy, hyx⟩
      · intro y hy
        rcases List.mem_cons.mp hy with rfl | hy
        · exact ⟨a, List.mem_cons_self, hcarries⟩
        · obtain ⟨x, hx, hyx⟩ := hright y hy
          exact ⟨x, List.mem_cons_of_mem _ hx, hyx⟩

theorem domainNames_carries {records : List RecordData} {answers : List DNSAnswerRecord}
    (h : List.Forall₂ DNSAnswerRecord.Carries records answers) :
    answers.map DNSAnswerRecord.domainName = records.map RecordData.domainName := by
  induction h with
  | nil => rfl
  | cons hcarries _ ih => rw [List.map_cons, List.map_cons, hcarries.domainName, ih]

/-- The bytes of a question under the name: its labels with their lengths, the zero
    byte, type and class. -/
def questionSize (q : DNSQueryRecord) : Nat := q.domainName.length + 6

theorem length_questionBytes {records : List DNSQueryRecord} (h : ∀ q ∈ records, q.Legal) :
    (questionBytes records).length = (records.map questionSize).sum := by
  induction records with
  | nil => rfl
  | cons q records ih =>
      rw [questionBytes, List.flatMap_cons, List.length_append,
        (h q List.mem_cons_self).length_wire, List.map_cons, List.sum_cons, questionSize]
      exact congrArg _ (ih fun x hx => h x (List.mem_cons_of_mem _ hx))

namespace DNSPacket

/-- Where the last question starts. -/
def lastQuestionOffset (p : DNSPacket) : Nat :=
  12 + (p.queriesRecords.dropLast.map questionSize).sum

/-- The bytes of a response with one address for each question. -/
def localResponseSize (p : DNSPacket) : Nat :=
  12 + (p.queriesRecords.map questionSize).sum + 16 * p.queriesRecords.length

theorem length_le_localResponseSize (p : DNSPacket) :
    p.queriesRecords.length ≤ p.localResponseSize := by
  unfold localResponseSize
  omega

end DNSPacket

/-- The datagram that the client gets is one it can read: it decodes to a packet with
    the transaction id and the questions of the query, and one A / IN answer for each
    question, in their order, that carries its record. -/
def Answered (query : DNSPacket) (records : List RecordData) (d : Datagram) : Prop :=
  ∃ packet, DNSPacket.fromBytes d.data = .ok packet ∧
    packet.transactionID = query.transactionID ∧
    packet.queriesRecords = query.queriesRecords ∧
    packet.answersRecords.map DNSAnswerRecord.domainName =
      query.queriesRecords.map DNSQueryRecord.domainName ∧
    List.Forall₂ DNSAnswerRecord.Carries records packet.answersRecords

section Pointers

variable {query : DNSPacket} {answers : List DNSAnswerRecord}

theorem lastQuestionOffset_eq (hquery : query.IsQuery) :
    query.lastQuestionOffset = 12 + (questionBytes query.queriesRecords.dropLast).length := by
  rw [DNSPacket.lastQuestionOffset, length_questionBytes]
  exact fun q hq => hquery.questions q (List.mem_of_mem_dropLast hq)

/-- The answer to the last question points to it with one byte. -/
theorem lastQuestionOffset_le_of_pointed (hquery : query.IsQuery)
    (hnames : answers.map DNSAnswerRecord.domainName =
      query.queriesRecords.map DNSQueryRecord.domainName)
    (hpointed : Pointed query.questionNames answers) : query.lastQuestionOffset ≤ 255 := by
  have hlast := lastQuestionOffset_eq hquery
  rcases List.eq_nil_or_concat' query.queriesRecords with hnil | ⟨init, q, hq⟩
  · rw [DNSPacket.lastQuestionOffset, hnil]
    decide
  · have hmem : q.domainName ∈ answers.map DNSAnswerRecord.domainName := by
      rw [hnames, hq]
      simp
    obtain ⟨a, ha, haq⟩ := List.mem_map.mp hmem
    obtain ⟨-, pointer, hpointer, hlt⟩ := hpointed a ha
    rw [DNSPacket.questionNames, hq, namesAfter_concat, haq, Dict.get?_set_self,
      Option.some_inj] at hpointer
    rw [hq, List.dropLast_concat] at hlast
    omega

/-- Answers to the questions point to them with one byte, when the last one can. -/
theorem pointed_of_lastQuestionOffset (hquery : query.IsQuery) {records : List RecordData}
    (hcarries : List.Forall₂ DNSAnswerRecord.Carries records answers)
    (hnames : answers.map DNSAnswerRecord.domainName =
      query.queriesRecords.map DNSQueryRecord.domainName)
    (hoffset : query.lastQuestionOffset ≤ 255)
    (httl : ∀ r ∈ records, 0 ≤ r.ttl ∧ r.ttl < 4294967296) :
    Pointed query.questionNames answers := by
  have hlast := lastQuestionOffset_eq hquery
  intro a ha
  obtain ⟨r, hr, hra⟩ := (carries_mem hcarries).1 a ha
  have hmem : a.domainName ∈ query.queriesRecords.map DNSQueryRecord.domainName := by
    rw [← hnames]
    exact List.mem_map_of_mem ha
  obtain ⟨q, hq, hqa⟩ := List.mem_map.mp hmem
  obtain ⟨pointer, hpointer, hle⟩ := get?_namesAfter hq 12 Dict.empty
  rw [hqa] at hpointer
  refine ⟨⟨?_, ?_, ?_, ?_, ?_⟩, pointer, hpointer, by omega⟩
  · rw [hra.type]
    decide
  · rw [hra.clase]
    decide
  · rw [hra.ttl]
    exact (httl r hr).1
  · rw [hra.ttl]
    exact (httl r hr).2
  · rw [hra.length]
    decide

end Pointers

/-- A query for names that all have an active record with a dotted-quad address is
    answered readably exactly when its last question starts at an offset of one byte
    and every time to live is a 32-bit number. -/
theorem local_answers_iff {query : DNSPacket} (hquery : query.IsQuery) {s : State} {o : Outside}
    {records : List RecordData}
    (hlocal : s.database.activeRecords o.looks 0 query.queriesRecords = some records)
    (hquads : ∀ r ∈ records, DottedQuad r.ipAddress) (hsize : query.localResponseSize < 16384)
    (clientAddress : Address) :
    (∃ d, requestHandler query clientAddress o s = .ok () (s.sending d) ∧
      d.address = clientAddress ∧ Answered query records d) ↔
    query.lastQuestionOffset ≤ 255 ∧ ∀ r ∈ records, 0 ≤ r.ttl ∧ r.ttl < 4294967296 := by
  obtain ⟨answers, hanswers, hcarries⟩ := localAnswers_of_dottedQuad hquads
  obtain ⟨hcarried, hcarrier⟩ := carries_mem hcarries
  have hrun := @requestHandler_of_activeRecords query clientAddress o s records answers
    hquery.count hlocal hanswers
  have hnames : answers.map DNSAnswerRecord.domainName =
      query.queriesRecords.map DNSQueryRecord.domainName :=
    (domainNames_carries hcarries).trans (domainName_activeRecords hlocal)
  have hcount : query.queriesRecords.length < 65536 := by
    have := query.length_le_localResponseSize
    omega
  have hlength : answers.length < 65536 := by
    rw [← hcarries.length_eq, length_activeRecords hlocal]
    exact hcount
  have htype : ∀ a ∈ answers, a.type ≠ DNSAnswerRecord.typeCNAME := by
    intro a ha
    obtain ⟨r, -, hra⟩ := hcarried a ha
    rw [hra.type]
    decide
  constructor
  · rintro ⟨d, hd, -, -⟩
    -- the encoder returned, so every pointer and every number fits
    have hpointed : Pointed query.questionNames answers := by
      cases hbytes : (localResponse query answers).toBytes with
      | ok data => exact pointed_of_toBytes hquery htype hcount hlength hbytes
      | error e =>
          rw [hrun, hbytes] at hd
          cases hd
    refine ⟨lastQuestionOffset_le_of_pointed hquery hnames hpointed, fun r hr => ?_⟩
    obtain ⟨a, ha, hra⟩ := hcarrier r hr
    have hfits := (hpointed a ha).1
    rw [← hra.ttl]
    exact ⟨hfits.ttl_nonneg, hfits.ttl_lt⟩
  · rintro ⟨hoffset, httl⟩
    have hpointed := pointed_of_lastQuestionOffset hquery hcarries hnames hoffset httl
    obtain ⟨data, flags, hbytes, hback⟩ :=
      localResponse_decodes hquery htype hcount hlength hpointed
    refine ⟨⟨localResponse query answers, data, clientAddress⟩, ?_, rfl, _, hback, rfl, rfl,
      hnames, hcarries⟩
    rw [hrun, hbytes]

/-- Questions for the address of the storage server. -/
def storageQuery (count : Nat) : DNSPacket where
  transactionID := [0, 7]
  flags := {
    isResponse := false, opcode := 0, authoritative := false, truncated := false,
    recdesired := true, recavail := false, z := false, authenticated := false,
    checkdisable := false, rcode := 0 }
  queriesCount := count
  answersCount := 0
  authorityCount := 0
  additionalCount := 0
  queriesRecords := List.replicate count ⟨"app.final.project.local".toList, 1, 1⟩

theorem isQuery_storageQuery (count : Nat) : (storageQuery count).IsQuery where
  transactionID := rfl
  flags := ⟨show 0 < 16 by decide, show 0 < 16 by decide⟩
  count := List.length_replicate.symm
  questions := by
    intro q hq
    rw [List.eq_of_mem_replicate hq]
    exact ⟨by decide +kernel, by decide, by decide⟩

def storageRecord : RecordData := ⟨"app.final.project.local".toList, "127.0.0.1".toList, 360⟩

def quiet : Outside := { looks := fun _ => 0, random := 0, received := [], saves := 0 }

theorem dottedQuad_storageRecord : DottedQuad storageRecord.ipAddress :=
  ⟨[127, 0, 0, 1], by decide +kernel⟩

theorem local_answers_iff_twoQuestions :
    ∃ d, requestHandler (storageQuery 2) ("192.168.100.20".toList, 5353) quiet defaultState =
        .ok () (defaultState.sending d) ∧
      d.address = ("192.168.100.20".toList, 5353) ∧
      Answered (storageQuery 2) (List.replicate 2 storageRecord) d :=
  (local_answers_iff (isQuery_storageQuery 2) (by decide +kernel)
    (fun _ hr => List.eq_of_mem_replicate hr ▸ dottedQuad_storageRecord) (by decide +kernel) _).mpr
    (by decide +kernel)

/-- The tenth question starts after byte 255, and its answer cannot point at it. -/
theorem not_local_answers_tenQuestions :
    (storageQuery 10).IsQuery ∧
      defaultState.database.activeRecords quiet.looks 0 (storageQuery 10).queriesRecords =
        some (List.replicate 10 storageRecord) ∧
      DottedQuad storageRecord.ipAddress ∧ (storageQuery 10).localResponseSize < 16384 ∧
      requestHandler (storageQuery 10) ("192.168.100.20".toList, 5353) quiet defaultState =
        .error .valueError defaultState ∧
      ¬ ∃ d, requestHandler (storageQuery 10) ("192.168.100.20".toList, 5353) quiet
          defaultState = .ok () (defaultState.sending d) ∧
        Answered (storageQuery 10) (List.replicate 10 storageRecord) d := by
  have hlocal : defaultState.database.activeRecords quiet.looks 0
      (storageQuery 10).queriesRecords = some (List.replicate 10 storageRecord) := by
    decide +kernel
  have hanswers : localAnswers ((List.replicate 10 storageRecord).map some) =
      .ok (List.replicate 10 ⟨"app.final.project.local".toList, 1, 1, 360, [127, 0, 0, 1]⟩) := by
    decide +kernel
  have hbytes : (localResponse (storageQuery 10)
      (List.replicate 10 ⟨"app.final.project.local".toList, 1, 1, 360, [127, 0, 0, 1]⟩)).toBytes =
      .error .valueError := by
    decide +kernel
  have hrun : requestHandler (storageQuery 10) ("192.168.100.20".toList, 5353) quiet
      defaultState = .error .valueError defaultState := by
    rw [requestHandler_of_activeRecords (isQuery_storageQuery 10).count hlocal hanswers, hbytes]
  refine ⟨isQuery_storageQuery 10, hlocal, dottedQuad_storageRecord, by decide +kernel, hrun, ?_⟩
  rintro ⟨d, hd, -⟩
  rw [hrun] at hd
  cases hd

end Dns
end NetworkingFinal
