/-
The module for what the modules of nodes are based on, as bundles embed it.
-/

namespace Workflow.Bundle.Shipped

/-- The lines of the module for what the modules of nodes are based on. -/
def nodeBaseLines : List String := [
  "\"\"\"",
  "Node base interface (`node_base`).",
  "",
  "Every action node runtime is an async callable `execute(props, secrets)`",
  "returning a JSON-serializable result. Failures are raised, never returned.",
  "\"\"\"",
  "",
  "from typing import Any, Awaitable, Callable, Dict, Optional",
  "",
  "",
  "Properties = Dict[str, Any]",
  "Secrets = Dict[str, Optional[str]]",
  "NodeRuntime = Callable[[Properties, Secrets], Awaitable[Any]]",
  "",
  "",
  "class NodeExecutionError(Exception):",
  "    \"\"\"Error raised by a node runtime.\"\"\"",
  "",
  "    code = \"NODE_EXECUTION_ERROR\"",
  "",
  "    def __init__(self, message: str, node_kind: Optional[str] = None):",
  "        super().__init__(message)",
  "        self.node_kind = node_kind",
  "",
  "",
  "def require_secret(secrets: Secrets, name: str, node_kind: str) -> str:",
  "    \"\"\"Return a secret value or fail with a clear message.\"\"\"",
  "    value = (secrets or \x7b\x7d).get(name)",
  "    if not value:",
  "        raise NodeExecutionError(",
  "            f\"Missing secret '\x7bname\x7d' (set SECRET_\x7bname\x7d in the environment)\",",
  "            node_kind,",
  "        )",
  "    return value"]

end Workflow.Bundle.Shipped
