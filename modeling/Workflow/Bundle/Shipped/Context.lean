/-
The module for contexts, requests and responses of handlers, as bundles embed it.
-/

namespace Workflow.Bundle.Shipped

/-- The lines of the module for contexts, requests and responses of handlers. -/
def contextLines : List String := [
  "\"\"\"",
  "Workflow runtime.",
  "",
  "Support library imported by generated handlers as `workflow_runtime`.",
  "Everything here is bundled into deployable artifacts, so it only depends on",
  "the standard library and on other bundled runtime modules.",
  "\"\"\"",
  "",
  "import hashlib",
  "import hmac",
  "import json",
  "import re",
  "import traceback",
  "import uuid",
  "from dataclasses import dataclass, field",
  "from datetime import datetime, timezone",
  "from typing import Any, Dict, Optional",
  "from urllib.parse import parse_qsl",
  "",
  "from flowsmith.runtime.expressions import ExpressionError, evaluate",
  "",
  "",
  "INTERPOLATION_PATTERN = re.compile(r\"\\\x7b\\\x7b(.+?)\\\x7d\\\x7d\", re.DOTALL)",
  "",
  "",
  "# =============================================================================",
  "# Request / Response",
  "# =============================================================================",
  "",
  "@dataclass",
  "class Request:",
  "    \"\"\"Request-like value handed to a workflow handler.\"\"\"",
  "    method: str = \"GET\"",
  "    path: str = \"/\"",
  "    headers: Dict[str, str] = field(default_factory=dict)",
  "    query: Dict[str, str] = field(default_factory=dict)",
  "    body: bytes = b\"\"",
  "",
  "    def __post_init__(self):",
  "        self.method = self.method.upper()",
  "        self.headers = \x7bk.lower(): v for k, v in self.headers.items()\x7d",
  "        if isinstance(self.body, str):",
  "            self.body = self.body.encode(\"utf-8\")",
  "        elif self.body is None:",
  "            self.body = b\"\"",
  "",
  "    def header(self, name: str, default: Optional[str] = None) -> Optional[str]:",
  "        return self.headers.get(name.lower(), default)",
  "",
  "",
  "@dataclass",
  "class Response:",
  "    \"\"\"Response-like value returned by a workflow handler.\"\"\"",
  "    status: int = 200",
  "    headers: Dict[str, str] = field(default_factory=dict)",
  "    body: bytes = b\"\"",
  "",
  "    def text(self) -> str:",
  "        return self.body.decode(\"utf-8\")",
  "",
  "    def json(self) -> Any:",
  "        return json.loads(self.body) if self.body else None",
  "",
  "",
  "def create_json_response(data: Any, status: int = 200) -> Response:",
  "    return Response(",
  "        status=status,",
  "        headers=\x7b\"content-type\": \"application/json\"\x7d,",
  "        body=json.dumps(data, default=str).encode(\"utf-8\"),",
  "    )",
  "",
  "",
  "def create_empty_response(status: int = 204) -> Response:",
  "    return Response(status=status)",
  "",
  "",
  "def create_error_response(code: str, message: str, status: int, logs: Optional[list] = None) -> Response:",
  "    return create_json_response(",
  "        \x7b\"success\": False, \"error\": \x7b\"code\": code, \"message\": message\x7d, \"logs\": logs or []\x7d,",
  "        status,",
  "    )",
  "",
  "",
  "# =============================================================================",
  "# Execution Context",
  "# =============================================================================",
  "",
  "@dataclass",
  "class ExecutionContext:",
  "    \"\"\"Per-invocation store of variables and step results.\"\"\"",
  "    variables: Dict[str, Any] = field(default_factory=dict)",
  "    step_results: Dict[str, Any] = field(default_factory=dict)",
  "    metadata: Dict[str, Any] = field(default_factory=dict)",
  "    current_step: Optional[str] = None",
  "    last_step: Optional[str] = None",
  "",
  "    def namespace(self) -> Dict[str, Any]:",
  "        \"\"\"Flattened variables plus `results` (step outputs keyed by node id).\"\"\"",
  "        names = dict(self.variables)",
  "        names[\"results\"] = dict(self.step_results)",
  "        return names",
  "",
  "    def set_result(self, node_id: str, value: Any) -> None:",
  "        self.step_results[node_id] = value",
  "        self.last_step = node_id",
  "",
  "    def result(self) -> Any:",
  "        \"\"\"The `result` variable when set, else the last step's output.\"\"\"",
  "        if \"result\" in self.variables:",
  "            return self.variables[\"result\"]",
  "        if self.last_step is not None:",
  "            return self.step_results.get(self.last_step)",
  "        return None",
  "",
  "",
  "def create_context(workflow_id: str, execution_id: str) -> ExecutionContext:",
  "    return ExecutionContext(",
  "        metadata=\x7b",
  "            \"workflowId\": workflow_id,",
  "            \"executionId\": execution_id,",
  "            \"startTime\": now_iso(),",
  "        \x7d",
  "    )",
  "",
  "",
  "def evaluate_expression(expression: Any, context: ExecutionContext) -> Any:",
  "    return evaluate(expression, context.namespace())",
  "",
  "",
  "def interpolate(value: Any, context: ExecutionContext) -> Any:",
  "    \"\"\"",
  "    Resolve `\x7b\x7b expr \x7d\x7d` markers in a string.",
  "",
  "    A string made of a single marker yields the raw value; otherwise every",
  "    marker is replaced by the string form of its value.",
  "    \"\"\"",
  "    if not isinstance(value, str) or \"\x7b\x7b\" not in value:",
  "        return value",
  "",
  "    whole = INTERPOLATION_PATTERN.fullmatch(value.strip())",
  "    if whole and \"\x7b\x7b\" not in whole.group(1):",
  "        return evaluate_expression(whole.group(1), context)",
  "",
  "    return INTERPOLATION_PATTERN.sub(",
  "        lambda m: _to_text(evaluate_expression(m.group(1), context)),",
  "        value,",
  "    )",
  "",
  "",
  "def interpolate_config(config: Any, context: ExecutionContext) -> Any:",
  "    \"\"\"Interpolate every string in a (possibly nested) configuration value.\"\"\"",
  "    if isinstance(config, dict):",
  "        return \x7bkey: interpolate_config(value, context) for key, value in config.items()\x7d",
  "    if isinstance(config, list):",
  "        return [interpolate_config(value, context) for value in config]",
  "    return interpolate(config, context)",
  "",
  "",
  "def _to_text(value: Any) -> str:",
  "    if value is None:",
  "        return \"\"",
  "    if isinstance(value, (dict, list)):",
  "        return json.dumps(value, default=str)",
  "    return str(value)",
  "",
  "",
  "# =============================================================================",
  "# Errors",
  "# =============================================================================",
  "",
  "def handle_error(error: BaseException, step: Optional[str] = None) -> Dict[str, Any]:",
  "    \"\"\"Normalize an exception into \x7bcode, message, step?, details?\x7d.\"\"\"",
  "    code = getattr(error, \"code\", None)",
  "    if not isinstance(code, str):",
  "        code = \"EXPRESSION_ERROR\" if isinstance(error, ExpressionError) else \"EXECUTION_ERROR\"",
  "",
  "    payload: Dict[str, Any] = \x7b\"code\": code, \"message\": str(error) or type(error).__name__\x7d",
  "    if step is not None:",
  "        payload[\"step\"] = step",
  "    details = \"\".join(traceback.format_exception(type(error), error, error.__traceback__))",
  "    if details:",
  "        payload[\"details\"] = details",
  "    return payload",
  "",
  "",
  "# =============================================================================",
  "# Trigger Helpers",
  "# =============================================================================",
  "",
  "def parse_json_body(request: Request) -> Any:",
  "    \"\"\"Parse a JSON body, falling back to \x7b\x7d when absent or malformed.\"\"\"",
  "    if not request.body:",
  "        return \x7b\x7d",
  "    try:",
  "        parsed = json.loads(request.body)",
  "    except ValueError:",
  "        return \x7b\x7d",
  "    return \x7b\x7d if parsed is None else parsed",
  "",
  "",
  "def read_body(request: Request) -> Any:",
  "    \"\"\"Decode a body according to its content type.\"\"\"",
  "    content_type = (request.header(\"content-type\") or \"\").split(\";\")[0].strip().lower()",
  "",
  "    if content_type == \"application/json\" or content_type.endswith(\"+json\"):",
  "        return parse_json_body(request)",
  "    if content_type == \"application/x-www-form-urlencoded\":",
  "        return dict(parse_qsl(request.body.decode(\"utf-8\"), keep_blank_values=True))",
  "    if content_type.startswith(\"text/\"):",
  "        return request.body.decode(\"utf-8\", errors=\"replace\")",
  "    return request.body",
  "",
  "",
  "def bearer_token(request: Request) -> Optional[str]:",
  "    \"\"\"Token of an `Authorization: Bearer <token>` header, if well-formed.\"\"\"",
  "    header = request.header(\"authorization\") or \"\"",
  "    scheme, _, token = header.strip().partition(\" \")",
  "    if scheme.lower() != \"bearer\" or not token.strip():",
  "        return None",
  "    return token.strip()",
  "",
  "",
  "def verify_signature(secret: str, body: bytes, signature: Optional[str]) -> bool:",
  "    \"\"\"Check an HMAC-SHA-256 hex signature (optionally `sha256=` prefixed).\"\"\"",
  "    if not signature:",
  "        return False",
  "    provided = signature.strip()",
  "    if provided.lower().startswith(\"sha256=\"):",
  "        provided = provided[len(\"sha256=\"):]",
  "    expected = hmac.new(secret.encode(\"utf-8\"), body, hashlib.sha256).hexdigest()",
  "    return hmac.compare_digest(expected.encode(\"ascii\"), provided.lower().encode(\"utf-8\", \"replace\"))",
  "",
  "",
  "def new_id() -> str:",
  "    return str(uuid.uuid4())",
  "",
  "",
  "def now_iso() -> str:",
  "    return datetime.now(timezone.utc).isoformat()"]

end Workflow.Bundle.Shipped
