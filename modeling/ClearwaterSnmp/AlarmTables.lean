import ClearwaterSnmp.Oid
import ClearwaterSnmp.AlarmActiveTable

namespace ClearwaterSnmp

/-! ## The OIDs of the tables and notifications -/

def alarmModelTableOid : Oid := [1, 3, 6, 1, 2, 1, 118, 1, 1, 2]
def ituAlarmTableOid : Oid := [1, 3, 6, 1, 2, 1, 121, 1, 1, 1]
def zeroDotZeroOid : Oid := [0, 0]
def alarmActiveStateOid : Oid := [1, 3, 6, 1, 2, 1, 118, 0, 2]
def alarmClearStateOid : Oid := [1, 3, 6, 1, 2, 1, 118, 0, 3]
def ituAlarmTableRowOid : Oid := [1, 3, 6, 1, 2, 1, 121, 1, 1, 1, 1, 2, 0, 1, 1]
def alarmModelTableRowOid : Oid := [1, 3, 6, 1, 2, 1, 118, 1, 1, 2, 1, 3, 0, 1, 2]
def entryColumnOid : Oid := [1, 3]

/-- Where the row OIDs are patched. -/
def ituAlarmTableRowIndex : ℕ := 13
def ituAlarmTableRowSeverity : ℕ := 14
def alarmModelTableRowIndex : ℕ := 13
def alarmModelTableRowState : ℕ := 14

/-- A value that `snmp_set_var_typed_value` sets. -/
inductive VarValue
  | objectId (oid : Oid)
  | octetStr (text : String)
  | integer (n : ℕ)
  | unsigned (n : ℕ)
deriving DecidableEq, Repr

/-- A component of the index of a table. -/
inductive IndexVar
  | octetStr (text : String)
  | unsigned (n : ℕ)
  | integer (n : ℕ)
deriving DecidableEq, Repr

/-- `build_oid` of Net-SNMP, which fails or yields the OID of an index: an empty
string is the sub-identifier 0, and a number is one sub-identifier. -/
structure OidBuilder where
  buildOid : List IndexVar → Option Oid
  build_nil : buildOid [] = some []
  build_empty : ∀ vars, buildOid (.octetStr "" :: vars) = (buildOid vars).map (0 :: ·)
  build_unsigned : ∀ n vars, buildOid (.unsigned n :: vars) = (buildOid vars).map (n :: ·)
  build_integer : ∀ n vars, buildOid (.integer n :: vars) = (buildOid vars).map (n :: ·)

/-- A string of ASCII characters as its length and its characters. -/
def OidBuilder.standard : OidBuilder where
  buildOid vars := some (vars.flatMap fun
    | .octetStr text => text.length :: text.toList.map Char.toNat
    | .unsigned n => [n]
    | .integer n => [n])
  build_nil := rfl
  build_empty _ := rfl
  build_unsigned _ _ := rfl
  build_integer _ _ := rfl

/-- `AlarmTableDef::state`, the mapping of RFC 3877. -/
def AlarmTableDef.state (d : AlarmTableDef) : ℕ := [2, 1, 2, 6, 5, 4, 3].getD d.severity.number 0

/-! ## alarmModelTable and ituAlarmTable -/

/-- `alarmModelTable_context` and `ituAlarmTable_context`. -/
structure TableRow where
  index : Oid
  alarmTableDef : AlarmTableDef
deriving DecidableEq, Repr

/-- A column of a row, as the table helper of Net-SNMP numbers it: the table, its
entry, the column and the index of the row. -/
def TableRow.columnOid (table : Oid) (column : ℕ) (row : TableRow) : Oid :=
  table ++ [1, column] ++ row.index

section AlarmModelTable

def alarmModelTableColMin : ℕ := 3

@[match_pattern] abbrev columnAlarmModelNotificationId : ℕ := 3
@[match_pattern] abbrev columnAlarmModelVarbindIndex : ℕ := 4
@[match_pattern] abbrev columnAlarmModelVarbindValue : ℕ := 5
@[match_pattern] abbrev columnAlarmModelDescription : ℕ := 6
@[match_pattern] abbrev columnAlarmModelSpecificPointer : ℕ := 7
@[match_pattern] abbrev columnAlarmModelVarbindSubtree : ℕ := 8
@[match_pattern] abbrev columnAlarmModelResourcePrefix : ℕ := 9
@[match_pattern] abbrev columnAlarmModelRowStatus : ℕ := 10

def rowStatusActive : ℕ := 1

/-- `alarmModelTable_create_row_context`, with `alarmModelTable_index_to_oid`. -/
def alarmModelTableCreateRow (builder : OidBuilder) (d : AlarmTableDef) : Option TableRow :=
  (builder.buildOid [.octetStr "", .unsigned d.alarmIndex, .unsigned d.state]).map fun index =>
    ⟨index, d⟩

/-- `alarmModelTable_insert_defs`: the rows in the order they are inserted. -/
def alarmModelTableInsertDefs (builder : OidBuilder) (defs : AlarmTableDefs) : List TableRow :=
  defs.iterate.filterMap (alarmModelTableCreateRow builder)

/-- `alarmModelTable_get_value` -/
def alarmModelTableGetValue (colnum : ℕ) (row : TableRow) : Option VarValue :=
  let d := row.alarmTableDef
  match colnum with
  | columnAlarmModelNotificationId =>
    some (.objectId (if d.severity = .cleared then alarmClearStateOid else alarmActiveStateOid))
  | columnAlarmModelVarbindIndex => some (.unsigned 0)
  | columnAlarmModelVarbindValue => some (.integer 0)
  | columnAlarmModelDescription => some (.octetStr d.severityDetails.description)
  | columnAlarmModelSpecificPointer =>
    some (.objectId ((ituAlarmTableRowOid.set ituAlarmTableRowIndex d.alarmIndex).set
      ituAlarmTableRowSeverity d.severity.number))
  | columnAlarmModelVarbindSubtree => some (.objectId zeroDotZeroOid)
  | columnAlarmModelResourcePrefix => some (.objectId zeroDotZeroOid)
  | columnAlarmModelRowStatus => some (.integer rowStatusActive)
  | _ => none

end AlarmModelTable

section ItuAlarmTable

def ituAlarmTableColMin : ℕ := 2

@[match_pattern] abbrev columnItuAlarmEventType : ℕ := 2
@[match_pattern] abbrev columnItuAlarmProbableCause : ℕ := 3
@[match_pattern] abbrev columnItuAlarmAdditionalText : ℕ := 4
@[match_pattern] abbrev columnItuAlarmGenericModel : ℕ := 5

def ianaItuEventTypeOperationalViolation : ℕ := 8

/-- `ituAlarmTable_create_row_context`, with `ituAlarmTable_index_to_oid`. -/
def ituAlarmTableCreateRow (builder : OidBuilder) (d : AlarmTableDef) : Option TableRow :=
  (builder.buildOid [.octetStr "", .unsigned d.alarmIndex, .integer d.severity.number]).map
    fun index => ⟨index, d⟩

/-- `ituAlarmTable_insert_defs` -/
def ituAlarmTableInsertDefs (builder : OidBuilder) (defs : AlarmTableDefs) : List TableRow :=
  defs.iterate.filterMap (ituAlarmTableCreateRow builder)

/-- `ituAlarmTable_get_value` -/
def ituAlarmTableGetValue (colnum : ℕ) (row : TableRow) : Option VarValue :=
  let d := row.alarmTableDef
  match colnum with
  | columnItuAlarmEventType => some (.integer ianaItuEventTypeOperationalViolation)
  | columnItuAlarmProbableCause => some (.integer d.alarmDefinition.cause)
  | columnItuAlarmAdditionalText => some (.octetStr d.severityDetails.details)
  | columnItuAlarmGenericModel =>
    some (.objectId ((alarmModelTableRowOid.set alarmModelTableRowIndex d.alarmIndex).set
      alarmModelTableRowState d.state))
  | _ => none

end ItuAlarmTable

/-! ## alarmActiveTable -/

section AlarmActiveTable

@[match_pattern] abbrev columnAlarmActiveEngineId : ℕ := 4
@[match_pattern] abbrev columnAlarmActiveEngineAddressType : ℕ := 5
@[match_pattern] abbrev columnAlarmActiveEngineAddress : ℕ := 6
@[match_pattern] abbrev columnAlarmActiveContextName : ℕ := 7
@[match_pattern] abbrev columnAlarmActiveVariables : ℕ := 8
@[match_pattern] abbrev columnAlarmActiveNotificationId : ℕ := 9
@[match_pattern] abbrev columnAlarmActiveResourceId : ℕ := 10
@[match_pattern] abbrev columnAlarmActiveDescription : ℕ := 11
@[match_pattern] abbrev columnAlarmActiveLogPointer : ℕ := 12
@[match_pattern] abbrev columnAlarmActiveModelPointer : ℕ := 13
@[match_pattern] abbrev columnAlarmActiveSpecificPointer : ℕ := 14

/-- `alarmActiveTable_get_value`, on a node with the address `localIp`. -/
def alarmActiveTableGetValue (localIp : String) (colnum : ℕ) (row : ActiveRow) : Option VarValue :=
  let d := row.alarmTableDef
  match colnum with
  | columnAlarmActiveEngineId => some (.octetStr "")
  | columnAlarmActiveEngineAddressType =>
    some (.integer (if ':' ∈ localIp.toList then 2 else 1))
  | columnAlarmActiveEngineAddress => some (.octetStr localIp)
  | columnAlarmActiveContextName => some (.octetStr "")
  | columnAlarmActiveVariables => some (.unsigned 0)
  | columnAlarmActiveNotificationId => some (.objectId alarmActiveStateOid)
  | columnAlarmActiveResourceId => some (.objectId zeroDotZeroOid)
  | columnAlarmActiveDescription => some (.octetStr d.severityDetails.description)
  | columnAlarmActiveLogPointer => some (.objectId zeroDotZeroOid)
  | columnAlarmActiveModelPointer =>
    -- the severity, where the index of a model row has the state
    some (.objectId (alarmModelTableOid ++ entryColumnOid ++
      [0, d.alarmIndex, d.severity.number]))
  | columnAlarmActiveSpecificPointer => some (.objectId zeroDotZeroOid)
  | _ => none

end AlarmActiveTable

/-! ## The contents of the INFORMs -/

inductive NotificationType
  | rfc3877
  | enterprise
deriving DecidableEq, Repr

/-- The variable bindings of a notification. -/
abbrev VarBinds := List (Oid × VarValue)

namespace AlarmTrapSender

def snmpTrapOid : Oid := [1, 3, 6, 1, 6, 3, 1, 1, 4, 1, 0]

section Rfc3877

def clearOid : Oid := [1, 3, 6, 1, 2, 1, 118, 0, 3]
def activeOid : Oid := [1, 3, 6, 1, 2, 1, 118, 0, 2]
def modelPtrOid : Oid := [1, 3, 6, 1, 2, 1, 118, 1, 2, 2, 1, 13, 0]
def modelRowOid : Oid := [1, 3, 6, 1, 2, 1, 118, 1, 1, 2, 1, 3, 0, 1, 2]
def resourceIdOid : Oid := [1, 3, 6, 1, 2, 1, 118, 1, 2, 2, 1, 10, 0]

/-- What `send_rfc3877_trap` gives to `send_v2trap`. -/
def rfc3877Trap (d : AlarmTableDef) : VarBinds :=
  [(snmpTrapOid, .objectId (if d.severity = .cleared then clearOid else activeOid)),
    (modelPtrOid, .objectId ((modelRowOid.set alarmModelTableRowIndex d.alarmIndex).set
      alarmModelTableRowState d.state)),
    (resourceIdOid, .objectId [0, 0])]

end Rfc3877

section Enterprise

def trapTypeOid : Oid := [1, 3, 6, 1, 4, 1, 19444, 12, 2, 0, 1]
def mibVersionOid : Oid := [1, 2, 826, 0, 1, 1578918, 12, 1, 1]
def alarmNameOid : Oid := [1, 3, 6, 1, 4, 1, 19444, 12, 2, 0, 2]
def alarmOidOid : Oid := [1, 3, 6, 1, 4, 1, 19444, 12, 2, 0, 3]
def enterpriseResourceIdOid : Oid := [1, 3, 6, 1, 4, 1, 19444, 12, 2, 0, 4]
def alarmSeverityOid : Oid := [1, 3, 6, 1, 4, 1, 19444, 12, 2, 0, 5]
def alarmDescriptionOid : Oid := [1, 3, 6, 1, 4, 1, 19444, 12, 2, 0, 6]
def alarmDetailsOid : Oid := [1, 3, 6, 1, 4, 1, 19444, 12, 2, 0, 7]
def alarmCauseOid : Oid := [1, 3, 6, 1, 4, 1, 19444, 12, 2, 0, 8]
def alarmEffectOid : Oid := [1, 3, 6, 1, 4, 1, 19444, 12, 2, 0, 9]
def alarmActionOid : Oid := [1, 3, 6, 1, 4, 1, 19444, 12, 2, 0, 10]
def alarmHostnameOid : Oid := [1, 3, 6, 1, 4, 1, 19444, 12, 2, 0, 12]

def mibVersion : String := "201608081100"

def severityToString : Severity → String
  | .undefinedSeverity => "UNDEFINED_SEVERITY"
  | .cleared => "CLEARED"
  | .indeterminate => "INDETERMINATE"
  | .critical => "CRITICAL"
  | .major => "MAJOR"
  | .minor => "MINOR"
  | .warning => "WARNING"

/-- What `send_enterprise_trap` gives to `send_v2trap`. -/
def enterpriseTrap (hostname : String) (d : AlarmTableDef) : VarBinds :=
  [(snmpTrapOid, .objectId trapTypeOid),
    (mibVersionOid, .octetStr mibVersion),
    (alarmNameOid, .octetStr d.alarmDefinition.name),
    (alarmOidOid, .objectId ((modelRowOid.set alarmModelTableRowIndex d.alarmIndex).set
      alarmModelTableRowState d.state)),
    (enterpriseResourceIdOid, .objectId [0, 0]),
    (alarmSeverityOid, .octetStr (severityToString d.severity)),
    (alarmDescriptionOid, .octetStr d.severityDetails.extendedDescription),
    (alarmDetailsOid, .octetStr d.severityDetails.extendedDetails),
    (alarmCauseOid, .octetStr d.severityDetails.cause),
    (alarmEffectOid, .octetStr d.severityDetails.effect),
    (alarmActionOid, .octetStr d.severityDetails.action),
    (alarmHostnameOid, .octetStr hostname)]

end Enterprise

/-- `send_trap`: one INFORM for each configured notification type. -/
def sendTrap (notifications : List NotificationType) (hostname : String) (d : AlarmTableDef) :
    List VarBinds :=
  notifications.map fun
    | .rfc3877 => rfc3877Trap d
    | .enterprise => enterpriseTrap hostname d

end AlarmTrapSender
end ClearwaterSnmp
