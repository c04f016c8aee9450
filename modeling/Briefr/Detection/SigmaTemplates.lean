import Briefr.Python.Loop

namespace Briefr.Detection

open Briefr.Python

/-- The template objects of the module. Several CWE ids share one. -/
inductive TemplateName
  | t1190
  | t1133
  | t1059
  | t1203
  | t1068
  | t1055
  | t1027
  | t1036
  | t1110
  | t1003
  | t1021
  | t1570
  | t1071
  | t1095
  | default
  | cwePathTraversal
  | cweCmdInjection
  | cweSqli
  | cweXss
  | cweDeser
  | cweCodeInjection
  | cweUpload
  | cweSsrf
  | cweXxe
  | cweAuthBypass
  | cweMemoryCorruption
  | cweDefaultCreds
  deriving DecidableEq

structure Template where
  tactic : Text
  logsource : Dict
  detection : Dict
  falsepositives : List Text
  level : Text
  briefrConfidence : Option Text := none
  briefrNoteExtra : Option Text := none

def texts (l : List String) : List Text := l.map String.toList

def strs (l : List String) : Value := .list (l.map fun s ↦ .str s.toList)

def number (n : ℕ) : Value := .num (toString n).toList (n == 0)

def ints (l : List ℕ) : Value := .list (l.map number)

/-- The contents of the templates when the module is loaded. -/
def templates : TemplateName → Template
  | .t1190 =>
    { tactic := "initial_access"
      logsource := [("category", .str "webserver")]
      detection := [
        ("keywords", strs ["../", "%2e%2e", "cmd.exe", "/etc/passwd", ";id;", "whoami", "<script", "' OR '1'='1",
          "UNION SELECT"]),
        ("condition", .str "keywords")]
      falsepositives := texts ["Vulnerability scanners", "Penetration testing", "Security researchers"]
      level := "high" }
  | .t1133 =>
    { tactic := "initial_access"
      logsource := [("product", .str "windows"), ("category", .str "network_connection")]
      detection := [
        ("selection", .dict [
          ("DestinationPort", ints [3389, 22, 5900, 1194, 8443]),
          ("Initiated", .str "true")]),
        ("filter", .dict [("SourceIp|startswith", strs ["10.", "192.168.", "172.16."])]),
        ("condition", .str "selection and not filter")]
      falsepositives := texts ["Legitimate remote administration", "VPN connections"]
      level := "medium" }
  | .t1059 =>
    { tactic := "execution"
      logsource := [("product", .str "windows"), ("category", .str "process_creation")]
      detection := [
        ("selection", .dict [
          ("Image|endswith", strs ["\\cmd.exe", "\\powershell.exe", "\\pwsh.exe", "\\bash.exe", "\\sh.exe",
            "\\wscript.exe",
            "\\cscript.exe"]),
          ("ParentImage|endswith", strs ["\\svchost.exe", "\\services.exe", "\\winlogon.exe", "\\lsass.exe"])]),
        ("condition", .str "selection")]
      falsepositives := texts ["Administrator activity", "Legitimate scripts run by svchost"]
      level := "medium" }
  | .t1203 =>
    { tactic := "execution"
      logsource := [("product", .str "windows"), ("category", .str "process_creation")]
      detection := [
        ("selection", .dict [
          ("ParentImage|endswith", strs ["\\winword.exe", "\\excel.exe", "\\outlook.exe", "\\firefox.exe",
            "\\chrome.exe",
            "\\msedge.exe", "\\acrobat.exe", "\\acrord32.exe"]),
          ("Image|endswith", strs ["\\cmd.exe", "\\powershell.exe", "\\wscript.exe", "\\mshta.exe",
            "\\regsvr32.exe",
            "\\rundll32.exe"])]),
        ("condition", .str "selection")]
      falsepositives := texts ["Macros in legitimate documents", "Office automation tools"]
      level := "high" }
  | .t1068 =>
    { tactic := "privilege_escalation"
      logsource := [("product", .str "windows"), ("category", .str "process_creation")]
      detection := [
        ("selection", .dict [("IntegrityLevel", .str "System")]),
        ("filter", .dict [
          ("Image|endswith", strs ["\\services.exe", "\\lsass.exe", "\\smss.exe", "\\csrss.exe",
            "\\wininit.exe", "\\svchost.exe"])]),
        ("condition", .str "selection and not filter")]
      falsepositives := texts ["Legitimate system processes", "Software installers"]
      level := "high" }
  | .t1055 =>
    { tactic := "privilege_escalation"
      logsource := [("product", .str "windows"), ("category", .str "create_remote_thread")]
      detection := [
        ("selection", .dict [
          ("TargetImage|endswith", strs ["\\explorer.exe", "\\svchost.exe", "\\lsass.exe", "\\winlogon.exe",
            "\\notepad.exe",
            "\\calc.exe"])]),
        ("filter", .dict [
          ("SourceImage|endswith", strs ["\\svchost.exe", "\\services.exe", "\\csrss.exe"])]),
        ("condition", .str "selection and not filter")]
      falsepositives := texts ["Security products", "Legitimate injection frameworks"]
      level := "high" }
  | .t1027 =>
    { tactic := "defense_evasion"
      logsource := [("product", .str "windows"), ("category", .str "process_creation")]
      detection := [
        ("selection", .dict [
          ("CommandLine|contains", strs ["base64", "IEX", "Invoke-Expression", "FromBase64String", "-enc",
            "-EncodedCommand", "char(",
            "CHAR(", "0x"])]),
        ("condition", .str "selection")]
      falsepositives := texts ["Legitimate PowerShell administration", "Software installers using base64"]
      level := "medium" }
  | .t1036 =>
    { tactic := "defense_evasion"
      logsource := [("product", .str "windows"), ("category", .str "process_creation")]
      detection := [
        ("selection", .dict [("Image|endswith", .str "\\svchost.exe")]),
        ("filter", .dict [("ParentImage|endswith", strs ["\\services.exe", "\\MsMpEng.exe"])]),
        ("condition", .str "selection and not filter")]
      falsepositives := texts ["Some security tools that spawn svchost"]
      level := "high" }
  | .t1110 =>
    { tactic := "credential_access"
      logsource := [("product", .str "windows"), ("service", .str "security")]
      detection := [
        ("selection", .dict [("EventID", number 4625)]),
        ("timeframe", .str "5m"),
        ("condition", .str "selection | count() > 10 by TargetUserName")]
      falsepositives := texts ["Misconfigured services", "Users forgetting passwords"]
      level := "medium" }
  | .t1003 =>
    { tactic := "credential_access"
      logsource := [("product", .str "windows"), ("category", .str "process_access")]
      detection := [
        ("selection", .dict [
          ("TargetImage|endswith", .str "\\lsass.exe"),
          ("GrantedAccess|contains", strs ["0x1010", "0x1410", "0x147a", "0x143a"])]),
        ("filter", .dict [
          ("SourceImage|endswith", strs ["\\MsMpEng.exe", "\\taskmgr.exe", "\\csrss.exe"])]),
        ("condition", .str "selection and not filter")]
      falsepositives := texts ["Security products accessing lsass", "Task Manager"]
      level := "critical" }
  | .t1021 =>
    { tactic := "lateral_movement"
      logsource := [("product", .str "windows"), ("service", .str "security")]
      detection := [
        ("selection", .dict [("EventID", ints [4624, 4648]), ("LogonType", ints [3, 10])]),
        ("filter", .dict [("SubjectUserName|endswith", .str "$")]),
        ("condition", .str "selection and not filter")]
      falsepositives := texts ["Legitimate remote administration", "Domain controller logins"]
      level := "low" }
  | .t1570 =>
    { tactic := "lateral_movement"
      logsource := [("product", .str "windows"), ("category", .str "network_connection")]
      detection := [
        ("selection", .dict [("DestinationPort", ints [445, 139]), ("Initiated", .str "true")]),
        ("filter", .dict [("DestinationIp", strs ["127.0.0.1", "::1"])]),
        ("condition", .str "selection and not filter")]
      falsepositives := texts ["Legitimate file transfers", "DFS replication", "Print spooler"]
      level := "low" }
  | .t1071 =>
    { tactic := "command_and_control"
      logsource := [("category", .str "proxy")]
      detection := [
        ("keywords", strs ["CONNECT ", "User-Agent: Mozilla/4.0 (compatible; MSIE 6.0)"]),
        ("selection", .dict [
          ("c-useragent|contains", strs ["python-requests", "Go-http-client", "curl/", "wget/"])]),
        ("condition", .str "keywords or selection")]
      falsepositives := texts ["Legitimate proxy use", "Automated scripts"]
      level := "medium" }
  | .t1095 =>
    { tactic := "command_and_control"
      logsource := [("category", .str "firewall")]
      detection := [
        ("selection", .dict [("proto", strs ["icmp", "icmp6"]), ("data_length|gt", number 64)]),
        ("condition", .str "selection")]
      falsepositives := texts ["Network monitoring tools", "Ping sweeps"]
      level := "medium" }
  | .default =>
    { tactic := "initial_access"
      logsource := [("category", .str "webserver")]
      detection := [
        ("keywords", strs ["exploit", "attack", "injection", "overflow"]),
        ("condition", .str "keywords")]
      falsepositives := texts ["Security scanners", "Penetration testing"]
      level := "medium" }
  | .cwePathTraversal =>
    { tactic := "initial_access"
      logsource := [("category", .str "webserver")]
      detection := [
        ("keywords", strs ["../", "..\\", "%2e%2e%2f", "%252e", "/etc/passwd", "boot.ini", "web.config"]),
        ("condition", .str "keywords")]
      falsepositives := texts ["URL-encoded path normalization", "Legitimate file paths"]
      level := "high"
      briefrConfidence := some "MEDIUM"
      briefrNoteExtra := some "" }
  | .cweCmdInjection =>
    { tactic := "initial_access"
      logsource := [("category", .str "webserver")]
      detection := [
        ("keywords", strs [";id", "; id", "|whoami", "| whoami", "`id`", "$(", "&&wget", "&& wget", ";curl",
          "; curl",
          "/bin/sh", "cmd.exe /c"]),
        ("condition", .str "keywords")]
      falsepositives := texts ["Shell tutorials in logs", "Dev tooling"]
      level := "high"
      briefrConfidence := some "MEDIUM"
      briefrNoteExtra := some "" }
  | .cweSqli =>
    { tactic := "initial_access"
      logsource := [("category", .str "webserver")]
      detection := [
        ("keywords", strs ["UNION SELECT", "' OR '1'='1", "SLEEP(", "BENCHMARK(", "information_schema",
          "xp_cmdshell"]),
        ("condition", .str "keywords")]
      falsepositives := texts ["ORM debug output", "SQL in documentation requests"]
      level := "high"
      briefrConfidence := some "MEDIUM"
      briefrNoteExtra := some "" }
  | .cweXss =>
    { tactic := "initial_access"
      logsource := [("category", .str "webserver")]
      detection := [
        ("keywords", strs ["<script", "onerror=", "javascript:", "%3Cscript"]),
        ("condition", .str "keywords")]
      falsepositives := texts ["Rich text editors", "Marketing pages with inline scripts", "Security scanners"]
      level := "low"
      briefrConfidence := some "LOW"
      briefrNoteExtra := some "High false-positive rate — tune keywords to your apps" }
  | .cweDeser =>
    { tactic := "initial_access"
      logsource := [("category", .str "webserver")]
      detection := [
        ("keywords", strs ["rO0AB", "aced0005", "TypeObject", "ysoserial", "__VIEWSTATE"]),
        ("condition", .str "keywords")]
      falsepositives := texts ["Legitimate serialized session blobs"]
      level := "high"
      briefrConfidence := some "MEDIUM"
      briefrNoteExtra := some "" }
  | .cweCodeInjection =>
    { tactic := "execution"
      logsource := [("category", .str "webserver")]
      detection := [
        ("keywords", strs ["eval(", "assert(", "base64_decode(", "\x7b\x7b", "\x7d\x7d", "$\x7b", "\x7d"]),
        ("condition", .str "keywords")]
      falsepositives := texts ["Template engines in dev", "Debug endpoints"]
      level := "medium"
      briefrConfidence := some "MEDIUM"
      briefrNoteExtra := some "" }
  | .cweUpload =>
    { tactic := "initial_access"
      logsource := [("category", .str "webserver")]
      detection := [
        ("keywords", strs [".jsp", ".jspx", ".php", ".aspx", ".ashx", ".war"]),
        ("condition", .str "keywords")]
      falsepositives := texts ["Legitimate file uploads", "Static asset paths"]
      level := "high"
      briefrConfidence := some "MEDIUM"
      briefrNoteExtra := some "" }
  | .cweSsrf =>
    { tactic := "initial_access"
      logsource := [("category", .str "webserver")]
      detection := [
        ("keywords", strs ["169.254.169.254", "metadata.google", "localhost:", "127.0.0.1", "file://",
          "gopher://"]),
        ("condition", .str "keywords")]
      falsepositives := texts ["Health checks", "Internal service callbacks"]
      level := "high"
      briefrConfidence := some "MEDIUM"
      briefrNoteExtra := some "" }
  | .cweXxe =>
    { tactic := "initial_access"
      logsource := [("category", .str "webserver")]
      detection := [
        ("keywords", strs ["<!ENTITY", "SYSTEM \"file://", "SYSTEM \"http://", "SYSTEM 'file://",
          "SYSTEM 'http://"]),
        ("condition", .str "keywords")]
      falsepositives := texts ["XML config parsers", "Document import features"]
      level := "high"
      briefrConfidence := some "MEDIUM"
      briefrNoteExtra := some "" }
  | .cweAuthBypass =>
    { tactic := "initial_access"
      logsource := [("category", .str "webserver")]
      detection := [
        ("keywords", strs ["/admin", "/api/login", "/api/auth", "bypass", "unauthorized", "privilege"]),
        ("condition", .str "keywords")]
      falsepositives := texts ["Legitimate admin traffic", "Auth integration tests"]
      level := "medium"
      briefrConfidence := some "MEDIUM"
      briefrNoteExtra := some "Requires environment tuning — map to your admin/API paths" }
  | .cweMemoryCorruption =>
    { tactic := "execution"
      logsource := [("category", .str "application")]
      detection := [
        ("selection", .dict [("EventID", ints [1000, 1001])]),
        ("keywords", strs ["segfault", "SIGSEGV", "core dumped"]),
        ("condition", .str "selection or keywords")]
      falsepositives := texts ["Benign application crashes", "Stability issues unrelated to exploitation"]
      level := "low"
      briefrConfidence := some "LOW"
      briefrNoteExtra := some "Crash telemetry is not proof of exploitation — correlate with exploit activity" }
  | .cweDefaultCreds =>
    { tactic := "credential_access"
      logsource := [("category", .str "authentication")]
      detection := [
        ("keywords", strs ["admin", "default", "root", "password", "guest"]),
        ("condition", .str "keywords")]
      falsepositives := texts ["Password reset flows", "Onboarding scripts"]
      level := "medium"
      briefrConfidence := some "MEDIUM"
      briefrNoteExtra := some "Fill in your product's vendor-default account names" }

/-- `TECHNIQUE_TEMPLATES`. -/
def techniqueTemplates : List (String × TemplateName) :=
  [("T1190", .t1190), ("T1133", .t1133), ("T1059", .t1059), ("T1203", .t1203), ("T1068", .t1068),
    ("T1055", .t1055), ("T1027", .t1027), ("T1036", .t1036), ("T1110", .t1110), ("T1003", .t1003),
    ("T1021", .t1021), ("T1570", .t1570), ("T1071", .t1071), ("T1095", .t1095)]

/-- `CWE_TEMPLATES`. -/
def cweTemplates : List (String × TemplateName) :=
  [("CWE-22", .cwePathTraversal), ("CWE-23", .cwePathTraversal), ("CWE-35", .cwePathTraversal),
    ("CWE-78", .cweCmdInjection), ("CWE-89", .cweSqli), ("CWE-79", .cweXss), ("CWE-502", .cweDeser),
    ("CWE-94", .cweCodeInjection), ("CWE-95", .cweCodeInjection), ("CWE-434", .cweUpload),
    ("CWE-918", .cweSsrf), ("CWE-611", .cweXxe), ("CWE-287", .cweAuthBypass), ("CWE-288", .cweAuthBypass),
    ("CWE-306", .cweAuthBypass), ("CWE-416", .cweMemoryCorruption), ("CWE-787", .cweMemoryCorruption),
    ("CWE-119", .cweMemoryCorruption), ("CWE-122", .cweMemoryCorruption), ("CWE-798", .cweDefaultCreds)]

/-- `CWE_CLASS_SLUGS`. -/
def cweClassSlugs : List (String × String) :=
  [("CWE-22", "path_traversal"), ("CWE-23", "path_traversal"), ("CWE-35", "path_traversal"),
    ("CWE-78", "cmd_injection"), ("CWE-89", "sqli"), ("CWE-79", "xss"), ("CWE-502", "deserialization"),
    ("CWE-94", "code_injection"), ("CWE-95", "code_injection"), ("CWE-434", "unsafe_upload"),
    ("CWE-918", "ssrf"), ("CWE-611", "xxe"), ("CWE-287", "auth_bypass"), ("CWE-288", "auth_bypass"),
    ("CWE-306", "auth_bypass"), ("CWE-416", "memory_corruption"), ("CWE-787", "memory_corruption"),
    ("CWE-119", "memory_corruption"), ("CWE-122", "memory_corruption"), ("CWE-798", "default_credentials")]

/-- `TECHNIQUE_CLASS_SLUGS`. -/
def techniqueClassSlugs : List (String × String) :=
  [("T1190", "web_exploit"), ("T1133", "remote_access"), ("T1059", "script_execution"),
    ("T1203", "client_execution"), ("T1068", "privilege_escalation"), ("T1055", "process_injection"),
    ("T1027", "obfuscation"), ("T1036", "masquerading"), ("T1110", "brute_force"),
    ("T1003", "credential_dumping"), ("T1021", "lateral_movement"), ("T1570", "lateral_transfer"),
    ("T1071", "c2_application"), ("T1095", "c2_non_application")]

def tableGet {α : Type} (table : List (String × α)) (key : Text) : Option α :=
  (table.find? fun p ↦ p.1.toList == key).map (·.2)

def defaultBriefrNote : Text :=
  "Validate before deploying to production — adjust field names and conditions to your environment"

end Briefr.Detection
