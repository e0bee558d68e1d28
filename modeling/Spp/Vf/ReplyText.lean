import Spp.Lib.Json
import Spp.Vf.OneReply

/-!
# The text of a reply

The functions `append_json_*` of `command_proc.c`, which put names and strings
between quotation marks as they are, and the text of a reply that they build. A
comma is added wherever the buffer is not empty. The text is the printed form of
a JSON value, so it has that value exactly if all strings in it are plain.
-/

namespace Spp.Vf.ReplyText

open CLib Json

section Append

/-- `JSON_APPEND_COMMA`. -/
def jsonAppendComma (flg : Bool) : CStr := if flg then ", ".toList else []

/-- `JSON_APPEND_VALUE`: a comma unless the output is empty, a name, and a text. -/
def appendJson (name output text : CStr) : CStr :=
  output ++ (jsonAppendComma (output.length ≠ 0) ++ '"' :: (name ++ "\": ".toList ++ text))

/-- `append_json_uint_value`. -/
def appendJsonUintValue (name output : CStr) (value : ℕ) : CStr :=
  appendJson name output (Nat.toDigits 10 value)

/-- `append_json_int_value`. -/
def appendJsonIntValue (name output : CStr) (value : ℤ) : CStr :=
  appendJson name output (decimal value)

/-- `append_json_str_value`. -/
def appendJsonStrValue (name output str : CStr) : CStr :=
  appendJson name output ('"' :: (str ++ ['"']))

/-- `append_json_array_brackets`. -/
def appendJsonArrayBrackets (name output str : CStr) : CStr :=
  appendJson name output ("[ ".toList ++ str ++ " ]".toList)

/-- `append_json_block_brackets`. A block without a name is an element of an array. -/
def appendJsonBlockBrackets (name output str : CStr) : CStr :=
  if name = [] then
    output ++ (jsonAppendComma (output.length ≠ 0) ++ ("\x7b ".toList ++ str ++ " \x7d".toList))
  else appendJson name output ("\x7b ".toList ++ str ++ " \x7d".toList)

/-- An entry of a response list: the tag, and the function that appends its value. -/
abbrev CommandResponse := CStr × (CStr → CStr → CStr)

/-- `append_response_list_value`. A function that appends nothing leaves no comma. -/
def appendResponseListValue (output : CStr) (list : List CommandResponse) : CStr :=
  list.foldl (fun output entry =>
    let tmpBuff := entry.2 entry.1 []
    if tmpBuff = [] then output
    else (if output ≠ [] then output ++ ", ".toList else output) ++ tmpBuff) output

end Append

section Strings

/-- `SPP_TYPE_*_STR`. -/
def componentTypeStr : ComponentType → CStr
  | .unuse => "unuse".toList
  | .classifierMac => "classifier_mac".toList
  | .merge => "merge".toList
  | .forward => "forward".toList
  | .mirror => "mirror".toList

/-- `SECONDARY_PROCESS_TYPE_SRINGS`. -/
def secondaryProcessTypeStr : SppModule → CStr
  | .vf => "vf".toList
  | .mirror => "mirror".toList

/-- `PORT_ABILITY_STATUS_STRINGS`. -/
def portAbilityStatusStr : PortAbilityOpe → CStr
  | .none => "none".toList
  | .addVlantag => "add".toList
  | .delVlantag => "del".toList

/-- `CLASSIFILER_TYPE_STATUS_STRINGS`. -/
def classifierTypeStatusStr : ClassifierType → CStr
  | .none => "none".toList
  | .mac => "mac".toList
  | .vlan => "vlan".toList

/-- The name of an interface type in `spp_format_port_string`, which shows no others. -/
def ifaceTypeStr : PortType → CStr
  | .phy => "phy".toList
  | .ring => "ring".toList
  | .vhost => "vhost".toList
  | _ => []

/-- The text of `spp_format_port_string`. -/
def portStr (port : PortIndex) : CStr := ifaceTypeStr port.ifaceType ++ ':' :: decimal port.ifaceNo

/-- A byte as two hexadecimal digits, `%02X`. -/
def hexByte (b : ℕ) : CStr := [Nat.digitChar (b / 16 % 16), Nat.digitChar (b % 16)].map Char.toUpper

/-- `ether_format_addr` of the bytes of a key. -/
def etherFormatAddr (key : ℕ) : CStr :=
  (((List.range 6).map fun i => hexByte (key / 256 ^ i % 256)).intersperse [':']).flatten

/-- `SPP_DEFAULT_CLASSIFIED_SPEC_STR`, or an address. -/
def macStr : Option ℕ → CStr
  | none => "default".toList
  | some key => etherFormatAddr key

/-- `value_str` in `append_classifier_element_value`. -/
def classifierValueStr (element : ClassifierElement) : CStr :=
  match element.type with
  | .mac => macStr element.mac
  | .vlan => decimal element.vid ++ '/' :: macStr element.mac
  | .none => []

end Strings

section Reply

/-- `append_vlan_value`. -/
def appendVlanValue (output : CStr) (ope : PortAbilityOpe) (vid pcp : ℤ) : CStr :=
  let output := appendJsonStrValue "operation".toList output (portAbilityStatusStr ope)
  let output := appendJsonIntValue "id".toList output vid
  appendJsonIntValue "pcp".toList output pcp

/-- `append_vlan_block`. -/
def appendVlanBlock (name output : CStr) (vlan : VlanBlock) : CStr :=
  appendJsonBlockBrackets name output (appendVlanValue [] vlan.operation vlan.id vlan.pcp)

/-- `append_port_block`. -/
def appendPortBlock (output : CStr) (block : PortBlock) : CStr :=
  let tmpBuff := appendJsonStrValue "port".toList [] (portStr block.port)
  appendJsonBlockBrackets [] output (appendVlanBlock "vlan".toList tmpBuff block.vlan)

/-- `append_port_array`. -/
def appendPortArray (name output : CStr) (ports : List PortBlock) : CStr :=
  appendJsonArrayBrackets name output (ports.foldl appendPortBlock [])

/-- `append_core_element_value`. -/
def appendCoreElementValue (output : CStr) : CoreElement → CStr
  | .unuse core =>
    let tmpBuff := appendJsonUintValue "core".toList [] core
    appendJsonBlockBrackets [] output
      (appendJsonStrValue "type".toList tmpBuff (componentTypeStr .unuse))
  | .component core name type rxPort txPort =>
    let tmpBuff := appendJsonUintValue "core".toList [] core
    let tmpBuff := appendJsonStrValue "name".toList tmpBuff name
    let tmpBuff := appendJsonStrValue "type".toList tmpBuff (componentTypeStr type)
    let tmpBuff := appendPortArray "rx_port".toList tmpBuff rxPort
    appendJsonBlockBrackets [] output (appendPortArray "tx_port".toList tmpBuff txPort)

/-- `append_core_value`. -/
def appendCoreValue (elements : List CoreElement) (name output : CStr) : CStr :=
  appendJsonArrayBrackets name output (elements.foldl appendCoreElementValue [])

/-- `append_classifier_element_value`. -/
def appendClassifierElementValue (output : CStr) (element : ClassifierElement) : CStr :=
  let tmpBuff := appendJsonStrValue "type".toList [] (classifierTypeStatusStr element.type)
  let tmpBuff := appendJsonStrValue "value".toList tmpBuff (classifierValueStr element)
  appendJsonBlockBrackets [] output
    (appendJsonStrValue "port".toList tmpBuff (portStr element.port))

/-- `append_classifier_table_value`. -/
def appendClassifierTableValue (elements : List ClassifierElement) (name output : CStr) : CStr :=
  appendJsonArrayBrackets name output (elements.foldl appendClassifierElementValue [])

/-- `append_interface_array`, whose commas depend on the number of ports so far. -/
def appendInterfaceArray (ports : List ℕ) : CStr :=
  (ports.foldl (fun (acc : CStr × ℕ) (i : ℕ) =>
    (acc.1 ++ (jsonAppendComma (acc.2 ≠ 0) ++ decimal i), acc.2 + 1)) ([], 0)).1

/-- `append_interface_value`. -/
def appendInterfaceValue (ports : List ℕ) (name output : CStr) : CStr :=
  appendJsonArrayBrackets name output (appendInterfaceArray ports)

/-- `append_client_id_value`. -/
def appendClientIdValue (clientId : ℤ) (name output : CStr) : CStr :=
  appendJsonIntValue name output clientId

/-- `append_process_type_value`. -/
def appendProcessTypeValue (M : SppModule) (name output : CStr) : CStr :=
  appendJsonStrValue name output (secondaryProcessTypeStr M)

/-- `response_info_list` with the values that its functions show. -/
def responseInfoList (info : StatusInfo) : List CommandResponse :=
  [("client-id".toList, appendClientIdValue info.clientId),
   ("phy".toList, appendInterfaceValue info.phy),
   ("vhost".toList, appendInterfaceValue info.vhost),
   ("ring".toList, appendInterfaceValue info.ring),
   ("core".toList, appendCoreValue info.core)] ++
  match info.classifierTable with
  | some table => [("classifier_table".toList, appendClassifierTableValue table)]
  | none => []

/-- `append_info_value`. -/
def appendInfoValue (name output : CStr) (info : StatusInfo) : CStr :=
  appendJsonBlockBrackets name output (appendResponseListValue [] (responseInfoList info))

/-- The result and the message that `set_command_results` stores. -/
def commandResultStrs : CommandResult → CStr × CStr
  | .success => ("success".toList, [])
  | .error message => ("error".toList, message)
  | .invalid => ("invalid".toList, [])

/-- `append_result_value`. -/
def appendResultValue (result : CommandResult) (name output : CStr) : CStr :=
  appendJsonStrValue name output (commandResultStrs result).1

/-- `append_error_details_value`. -/
def appendErrorDetailsValue (result : CommandResult) (name output : CStr) : CStr :=
  if (commandResultStrs result).2 = [] then output
  else
    appendJsonBlockBrackets name output
      (appendJsonStrValue "message".toList [] (commandResultStrs result).2)

/-- `response_result_list` for a result. -/
def responseResultList (result : CommandResult) : List CommandResponse :=
  [("result".toList, appendResultValue result),
   ("error_details".toList, appendErrorDetailsValue result)]

/-- `append_command_results_value`. -/
def appendCommandResultsValue (name output : CStr) (results : List CommandResult) : CStr :=
  appendJsonArrayBrackets name output (results.foldl (fun tmpBuff result =>
    appendJsonBlockBrackets [] tmpBuff
      (appendResponseListValue [] (responseResultList result))) [])

/-- The text that `send_command_result_response` sends, and that
`send_decode_error_response` sends with the results only. -/
def sendCommandResultResponse (response : Response) : CStr :=
  let tmpBuff := appendCommandResultsValue "results".toList [] response.results
  let tmpBuff :=
    match response.clientId with
    | some (clientId, M) =>
      appendProcessTypeValue M "process_type".toList
        (appendClientIdValue clientId "client_id".toList tmpBuff)
    | none => tmpBuff
  let tmpBuff :=
    match response.info with
    | some info => appendInfoValue "info".toList tmpBuff info
    | none => tmpBuff
  appendJsonBlockBrackets [] [] tmpBuff

end Reply

end Spp.Vf.ReplyText
